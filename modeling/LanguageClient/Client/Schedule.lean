import LanguageClient.Client.Operation
/-!
The schedule. Ready work runs first come, first served; when none is left, the alarms that are due
make work ready in the order of their times. Time stands still except where it is moved on purpose.
-/
namespace LanguageClient.Client.State

def run (w : Work) (s : State) : State :=
  match w with
  | .operation n => s.runOperation n
  | .writer g => s.runWriter g
  | .reader g => s.runReader g
  | .ticker g => s.runTicker g
  | .watchdog id => s.watch id

/-- The alarms that are due, earliest first. -/
def dueAlarms (s : State) : List (Nat × Work) :=
  (s.alarms.filter (fun a => a.1 ≤ s.now)).mergeSort (fun a b => a.1 ≤ b.1)

def ring (s : State) : State :=
  (s.dueAlarms).foldl (fun s a => s.wake a.2)
    { s with alarms := s.alarms.filter (fun a => s.now < a.1) }

/-- Lets ready work run until none is left and no alarm is due, for at most so many turns. -/
def settleWork : Nat → State → State
  | 0, s => s
  | turns + 1, s =>
    match s.ready with
    | w :: rest => settleWork turns ({ s with ready := rest }.run w)
    | [] => if s.dueAlarms.isEmpty then s else settleWork turns s.ring

/-- More turns than anything here takes. -/
def turnLimit : Nat := 1000000

def rest (s : State) : State := s.settleWork turnLimit

def advance (ms : Nat) (s : State) : State := { s with now := s.now + ms }

def nextAlarm? (s : State) : Option Nat := (s.alarms.map Prod.fst).min?

end LanguageClient.Client.State
