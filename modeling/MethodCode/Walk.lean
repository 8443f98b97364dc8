import MethodCode.Cursor.Length
import MethodCode.Event
import MethodCode.FormatTable.Standard

/-! Walks: a method's code one instruction after another, from a position that starts an instruction. A
walk ends where it was told to, or at the first instruction that is not there in full, which it reports
once. -/

namespace MethodCode

/-- A walk over the code of a method. -/
structure Walk where
  mode : Mode
  method : Method
  code : Code
  /-- Where the next instruction starts. -/
  next : Nat
  /-- Where the walk ends at the latest. -/
  stop : Nat
  /-- What the walk has reported. -/
  events : List Event

namespace Walk

/-- The walk over a method's code from a position to the end. -/
def startingAt (mode : Mode) (method : Method) (code : Code) (bci : Nat) : Walk :=
  ⟨mode, method, code, bci, code.size, []⟩

/-- The same walk, ending before a position. -/
def withLimit (w : Walk) (stop : Nat) : Walk :=
  { w with stop := min stop w.code.size }

/-- A cursor at the next instruction. -/
def cursor (w : Walk) : Cursor :=
  ⟨w.mode, .standard, w.code, some w.method, w.next⟩

/-- The next instruction, if there is one, and the walk after it. A byte that is no opcode stops the walk
where it is. -/
def step (w : Walk) : Except Fault (Option Cursor) × Walk :=
  if w.stop ≤ w.next then (.ok none, w)
  else match w.cursor.checkedLength with
    | .error f => (.error f, w)
    | .ok none =>
      (.ok none, { w with next := w.stop, events := w.events ++ [.truncated w.method w.next] })
    | .ok (some n) => (.ok (some w.cursor), { w with next := w.next + n })

/-- What a walk met: the instructions in order, the fault that cut it short, and the walk at its end. -/
structure Trail where
  cursors : List Cursor
  fault : Option Fault
  rest : Walk

/-- The walk to its end. Every instruction of the standard set takes up room, so the walk comes nearer to
its end with every step. -/
def trail (w : Walk) : Trail :=
  match w.step with
  | (.error f, rest) => ⟨[], some f, rest⟩
  | (.ok none, rest) => ⟨[], none, rest⟩
  | (.ok (some c), rest) =>
    if rest.stop - rest.next < w.stop - w.next then
      let later := rest.trail
      ⟨c :: later.cursors, later.fault, later.rest⟩
    else ⟨[c], none, rest⟩
termination_by w.stop - w.next

end Walk

end MethodCode
