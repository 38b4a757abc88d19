import DynScript.Proofs.CallDepth
import DynScript.Proofs.Endings
import DynScript.Proofs.Surroundings

/-!
# Raised limits

The limit of nested calls is looked at in one place only, where a function of a script is entered, and a
call that is refused ends the run: nothing catches an error.
-/

namespace DynScript

namespace Machine

variable {rules : Rules} {m : Machine} {i : Ref} {limit : Int}

/-- The same machine, except that the interpreter `i` allows as many nested calls as the limit says. -/
def allow (m : Machine) (i : Ref) (limit : Int) : Machine :=
  m.updateInterpreter i fun n => { n with limit := limit }

end Machine

/-! ### Limits stay -/

namespace Skeleton

variable {s : Skeleton} {i : Ref} {limit : Int}

end Skeleton

namespace Machine

variable {rules : Rules} {m : Machine} {i : Ref} {limit : Int}

end Machine

end DynScript
