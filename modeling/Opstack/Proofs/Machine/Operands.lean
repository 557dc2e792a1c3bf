import Opstack.Machine.Step

/-!
# What instructions make of their operands

`Opcode.Makes` says what the instructions of an opcode make of operands, wherever they stand: in
any execution and any shared state.  So a law of operations on values is a law of instructions
(`Opcode.makes_binary_iff`).
-/

set_option autoImplicit false

namespace Opstack

/-- What the instructions of an opcode make of their operands, the topmost first, in any execution
and any shared state: they replace them by a value, or raise a fault, and change nothing else. -/
def Opcode.Makes (op : Opcode) (operands : List Value) (result : Except Fault Value) : Prop :=
  ∀ (s : Shared) (x : Execution) (i : Instr), i.op = op →
    perform s { x with operands := operands ++ x.operands } i =
      (s, .ofExcept (result.map x.push))

namespace Opcode

theorem Makes.unique {op : Opcode} {operands : List Value} {r r' : Except Fault Value}
    (h : op.Makes operands r) (h' : op.Makes operands r') : r = r' := by
  have heq := (h {} ⟨none, 0, [], []⟩ { op } rfl).symm.trans (h' {} ⟨none, 0, [], []⟩ { op } rfl)
  have heffect := congrArg Prod.snd heq
  cases r <;> cases r' <;> cases heffect <;> rfl

theorem makes_binary (op : BinaryOp) (a b : Value) :
    (Opcode.binary op).Makes [b, a] (Value.binary op a b) := by
  intro s x i hi
  rw [perform, hi]
  change (s, Effect.ofExcept (Value.binary op a b >>= fun v => pure (x.push v))) = _
  cases Value.binary op a b <;> rfl

theorem makes_unary (op : UnaryOp) (v : Value) :
    (Opcode.unary op).Makes [v] (Value.unary op v) := by
  intro s x i hi
  rw [perform, hi]
  change (s, Effect.ofExcept (Value.unary op v >>= fun v => pure (x.push v))) = _
  cases Value.unary op v <;> rfl

theorem makes_len (s : String) :
    Opcode.len.Makes [.str s] (.ok (.int (Int64.ofNat s.length))) := by
  intro shared x i hi
  rw [perform, hi]
  rfl

/-- A binary instruction makes of two operands what the operation makes of them. -/
theorem makes_binary_iff {op : BinaryOp} {a b : Value} {r : Except Fault Value} :
    (Opcode.binary op).Makes [b, a] r ↔ Value.binary op a b = r := by
  have h := makes_binary op a b
  constructor
  · exact h.unique
  · rintro rfl
    exact h

end Opcode
end Opstack
