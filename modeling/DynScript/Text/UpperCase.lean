import DynScript.Text.CaseRun

/-!
# Upper case

Upper-casing of text by the full mapping of Unicode 14.  Every character is mapped by itself; some,
such as `ß`, become two or three characters.
-/

namespace DynScript.Text

/-- The runs of characters that have an upper case form of one character whose lower case form is
another one. -/
def upperRuns : List CaseRun :=
  [⟨0xB5,1,1,743⟩,⟨0x131,1,1,-232⟩,⟨0x17F,1,1,-300⟩,⟨0x1C5,1,1,-1⟩,⟨0x1C8,1,1,-1⟩,⟨0x1CB,1,1,-1⟩,
   ⟨0x1F2,1,1,-1⟩,⟨0x345,1,1,84⟩,⟨0x3C2,1,1,-31⟩,⟨0x3D0,1,1,-62⟩,⟨0x3D1,1,1,-57⟩,⟨0x3D5,1,1,-47⟩,
   ⟨0x3D6,1,1,-54⟩,⟨0x3F0,1,1,-86⟩,⟨0x3F1,1,1,-80⟩,⟨0x3F5,1,1,-96⟩,⟨0x1C80,1,1,-6254⟩,
   ⟨0x1C81,1,1,-6253⟩,⟨0x1C82,1,1,-6244⟩,⟨0x1C83,2,1,-6242⟩,⟨0x1C85,1,1,-6243⟩,⟨0x1C86,1,1,-6236⟩,
   ⟨0x1C87,1,1,-6181⟩,⟨0x1C88,1,1,35266⟩,⟨0x1E9B,1,1,-59⟩,⟨0x1FBE,1,1,-7205⟩]

/-- The characters whose upper case form has several characters. -/
def upperExpansions : List (Nat × List Nat) :=
  [(0xDF, [0x53, 0x53]), (0x149, [0x2BC, 0x4E]), (0x1F0, [0x4A, 0x30C]),
   (0x390, [0x399, 0x308, 0x301]), (0x3B0, [0x3A5, 0x308, 0x301]), (0x587, [0x535, 0x552]),
   (0x1E96, [0x48, 0x331]), (0x1E97, [0x54, 0x308]), (0x1E98, [0x57, 0x30A]),
   (0x1E99, [0x59, 0x30A]), (0x1E9A, [0x41, 0x2BE]), (0x1F50, [0x3A5, 0x313]),
   (0x1F52, [0x3A5, 0x313, 0x300]), (0x1F54, [0x3A5, 0x313, 0x301]),
   (0x1F56, [0x3A5, 0x313, 0x342]), (0x1FB2, [0x1FBA, 0x399]), (0x1FB3, [0x391, 0x399]),
   (0x1FB4, [0x386, 0x399]), (0x1FB6, [0x391, 0x342]), (0x1FB7, [0x391, 0x342, 0x399]),
   (0x1FBC, [0x391, 0x399]), (0x1FC2, [0x1FCA, 0x399]), (0x1FC3, [0x397, 0x399]),
   (0x1FC4, [0x389, 0x399]), (0x1FC6, [0x397, 0x342]), (0x1FC7, [0x397, 0x342, 0x399]),
   (0x1FCC, [0x397, 0x399]), (0x1FD2, [0x399, 0x308, 0x300]), (0x1FD3, [0x399, 0x308, 0x301]),
   (0x1FD6, [0x399, 0x342]), (0x1FD7, [0x399, 0x308, 0x342]), (0x1FE2, [0x3A5, 0x308, 0x300]),
   (0x1FE3, [0x3A5, 0x308, 0x301]), (0x1FE4, [0x3A1, 0x313]), (0x1FE6, [0x3A5, 0x342]),
   (0x1FE7, [0x3A5, 0x308, 0x342]), (0x1FF2, [0x1FFA, 0x399]), (0x1FF3, [0x3A9, 0x399]),
   (0x1FF4, [0x38F, 0x399]), (0x1FF6, [0x3A9, 0x342]), (0x1FF7, [0x3A9, 0x342, 0x399]),
   (0x1FFC, [0x3A9, 0x399]), (0xFB00, [0x46, 0x46]), (0xFB01, [0x46, 0x49]), (0xFB02, [0x46, 0x4C]),
   (0xFB03, [0x46, 0x46, 0x49]), (0xFB04, [0x46, 0x46, 0x4C]), (0xFB05, [0x53, 0x54]),
   (0xFB06, [0x53, 0x54]), (0xFB13, [0x544, 0x546]), (0xFB14, [0x544, 0x535]),
   (0xFB15, [0x544, 0x53B]), (0xFB16, [0x54E, 0x546]), (0xFB17, [0x544, 0x53D])] ++
  -- Letters with an iota below them, in rows of eight.
  [(0x1F80, 0x1F08), (0x1F88, 0x1F08), (0x1F90, 0x1F28), (0x1F98, 0x1F28), (0x1FA0, 0x1F68),
   (0x1FA8, 0x1F68)].flatMap fun (c, upper) => (List.range 8).map fun i => (c + i, [upper + i, 0x399])

/-- The capitals for a letter. -/
def upperChar (c : Char) : List Char :=
  if c.toNat < 0x80 then [c.toUpper]
  else match upperExpansions.lookup c.toNat with
    | some codes => codes.map Char.ofNat
    | none => [CaseRun.moved (upperRuns ++ pairedRuns.map CaseRun.back) c]

/-- A text in capitals. -/
def upper (s : String) : String :=
  String.ofList (s.toList.flatMap upperChar)

end DynScript.Text
