import TerminalFeed.Scheduler.Scheduler

/-!
A scheduler whose tokens and tasks do nothing to it: whatever runs on its
executor returns with the next step.
-/

namespace TerminalFeed

variable {α κ ε : Type}

def Stage.runsCode : Stage α → Bool
  | .task _ | .token .. | .perform => true
  | _ => false

def Executor.isIdle (x : Executor α κ) : Bool :=
  match x.stage with
  | .waiting => x.mailbox.isEmpty
  | .ended => true
  | _ => false

namespace Scheduler

/-- One step, where code that runs returns. -/
def advance (s : Scheduler α κ ε) (around : Surroundings) :
    Scheduler α κ ε × List (Happening α κ) :=
  s.act fun x => if x.stage.runsCode then x.finish else x.tick around

end Scheduler

end TerminalFeed
