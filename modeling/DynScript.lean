import DynScript.Code.Outline
import DynScript.Main
import DynScript.Value.Identity
import DynScript.Proofs.Strictness
import DynScript.Proofs.RebuiltData
import DynScript.Proofs.Collecting
import DynScript.Proofs.Containers
import DynScript.Proofs.KeptDeclarations
import DynScript.Proofs.LinkedRuns
import DynScript.Proofs.RaisedLimits
import DynScript.Proofs.RestoredDepth
import DynScript.Proofs.Respacing
import DynScript.Proofs.RunValues
import DynScript.Proofs.ConstantValues
import DynScript.Proofs.CompoundAssignments
import DynScript.Proofs.BitOperators
import DynScript.Proofs.Sections
import DynScript.Proofs.AnnouncedLabels
import DynScript.Proofs.Suggestions
import DynScript.Proofs.Switches
import DynScript.Proofs.WrittenLines
import DynScript.Proofs.Conversion
