import Opstack.Proofs.Lowering.Jumps

/-!
# Calls in compiled code

Every `CALL`, `THREAD` and `WAIT` of compiled code was written for a call of the tree, so what a
tree may call is also what its code may call: `Function.permits_of_lower`.  Rules about calls
(`Rules.call`) thus become rules about instructions (`Rules.Permits`).

`Rules.threadless` are the rules under which no thread is started or waited for, and
`Program.Threadless` says that a call of a function leads to nothing that breaks them.
-/

set_option autoImplicit false

namespace Opstack

/-- The rules that allow everything but the builtins about threads. -/
def Rules.threadless : Rules where
  call name _ := name != "thread_create" && name != "thread_wait"
  arm _ _ := true

/-- The instruction calls a routine, starts a thread or waits for one. -/
def Opcode.isOfCalls : Opcode → Bool
  | .call | .thread | .wait => true
  | _ => false

/-- If the instruction makes a call, then the rules allow it. -/
structure Rules.Permits (rules : Rules) (i : Instr) : Prop where
  /-- A `CALL` calls what may be called and is not a builtin. -/
  call : i.op = .call → ∀ name, i.arg = some (.name name) →
    builtin? name = none ∧ ∃ n, rules.call name n = true
  /-- A `THREAD` is that of the builtin. -/
  thread : i.op = .thread → ∃ n, rules.call "thread_create" n = true
  /-- A `WAIT` is that of the builtin. -/
  wait : i.op = .wait → ∃ n, rules.call "thread_wait" n = true

/-- The code makes no call that the rules do not allow. -/
def Rules.PermitsAll (rules : Rules) (code : List Instr) : Prop := ∀ i ∈ code, rules.Permits i

section

variable {rules : Rules} {a b code : List Instr} {i : Instr}

theorem permits_of_isOfCalls (h : i.op.isOfCalls = false) : rules.Permits i where
  call hop := by
    rw [hop] at h
    cases h
  thread hop := by
    rw [hop] at h
    cases h
  wait hop := by
    rw [hop] at h
    cases h

@[simp] theorem permitsAll_nil : rules.PermitsAll [] := List.forall_mem_nil _

@[simp] theorem permitsAll_append :
    rules.PermitsAll (a ++ b) ↔ rules.PermitsAll a ∧ rules.PermitsAll b :=
  List.forall_mem_append

@[simp] theorem permitsAll_cons :
    rules.PermitsAll (i :: code) ↔ rules.Permits i ∧ rules.PermitsAll code :=
  List.forall_mem_cons

/-- An instruction that makes no call in front of the code. -/
theorem permitsAll_cons_other (h : i.op.isOfCalls = false) (hcode : rules.PermitsAll code) :
    rules.PermitsAll (i :: code) :=
  permitsAll_cons.mpr ⟨permits_of_isOfCalls h, hcode⟩

theorem permitsAll_singleton (h : i.op.isOfCalls = false) : rules.PermitsAll [i] :=
  permitsAll_cons_other h permitsAll_nil

theorem permitsAll_callCode {name : String} {n : Nat} (h : rules.call name n = true) :
    rules.PermitsAll (callCode name) := by
  unfold callCode
  cases hbuiltin : builtin? name with
  | none =>
    refine permitsAll_cons.mpr ⟨⟨fun _ name' harg => ?_, fun hop => ?_, fun hop => ?_⟩,
      permitsAll_nil⟩
    · cases harg
      exact ⟨hbuiltin, n, h⟩
    · cases hop
    · cases hop
  | some code =>
    unfold builtin? at hbuiltin
    split at hbuiltin <;> cases hbuiltin
    case h_1 => exact permitsAll_cons_other rfl (permitsAll_singleton rfl)
    case h_2 =>
      exact permitsAll_cons_other rfl (permitsAll_cons_other rfl (permitsAll_cons_other rfl
        (permitsAll_singleton rfl)))
    case h_9 =>
      exact permitsAll_cons.mpr ⟨⟨fun hop => (by cases hop), fun _ => ⟨n, h⟩,
        fun hop => (by cases hop)⟩, permitsAll_nil⟩
    case h_10 =>
      exact permitsAll_cons.mpr ⟨⟨fun hop => (by cases hop), fun hop => (by cases hop),
        fun _ => ⟨n, h⟩⟩, permitsAll_nil⟩
    all_goals exact permitsAll_singleton rfl

theorem permitsAll_storeCode (slot n : Nat) : rules.PermitsAll (storeCode slot n) := by
  induction n generalizing slot with
  | zero => exact permitsAll_nil
  | succ n ih => exact permitsAll_cons_other rfl (ih _)

theorem permitsAll_countingCode (name : String) (slot : Nat) :
    rules.PermitsAll (countingCode name slot) :=
  permitsAll_cons_other rfl (permitsAll_cons_other rfl (permitsAll_cons_other rfl
    (permitsAll_singleton rfl)))

end

section

variable {rules : Rules} {table : RecordTable} {start : Nat} {scope scope' : Scope}
  {code : List Instr} {marks : List Nat}

theorem Term.Code.permits {term : Term} (h : Term.Code rules table scope term code) :
    rules.PermitsAll code := by
  induction h with
  | literal _ => exact permitsAll_singleton rfl
  | path _ ih => exact ih
  | call hcall _ ih => exact permitsAll_append.mpr ⟨ih, permitsAll_callCode hcall⟩
  | newRecord _ _ _ ih => exact permitsAll_cons_other rfl ih
  | newArray _ ih | not _ ih | indexed _ ih =>
    exact permitsAll_append.mpr ⟨ih, permitsAll_singleton rfl⟩
  | binary _ _ _ ih ih' | swapped _ _ _ ih ih' =>
    exact permitsAll_append.mpr ⟨permitsAll_append.mpr ⟨ih, ih'⟩, permitsAll_singleton rfl⟩
  | noArgs | noFields | noSteps | plain => exact permitsAll_nil
  | args _ _ ih ih' => exact permitsAll_append.mpr ⟨ih, ih'⟩
  | fields _ _ ih ih' =>
    exact permitsAll_append.mpr ⟨permitsAll_cons_other rfl ih, permitsAll_cons_other rfl ih'⟩
  | start _ _ _ ih ih' | steps _ _ ih ih' =>
    exact permitsAll_append.mpr ⟨permitsAll_cons_other rfl ih, ih'⟩

theorem FieldTarget.Code.permits {steps : List Step} {last : Instr}
    (h : FieldTarget.Code rules table scope steps code last) : rules.PermitsAll code := by
  induction h with
  | field => exact permitsAll_nil
  | cell h => exact permitsAll_cons_other rfl h.permits
  | step h _ ih => exact permitsAll_append.mpr ⟨permitsAll_cons_other rfl h.permits, ih⟩

theorem Target.Code.permits {steps : List Step} {last : Instr}
    (h : Target.Code rules table scope steps code last) : rules.PermitsAll code := by
  cases h with
  | slot _ => exact permitsAll_nil
  | cell _ h => exact permitsAll_cons_other rfl h.permits
  | step _ h hrest =>
    exact permitsAll_append.mpr ⟨permitsAll_cons_other rfl h.permits, hrest.permits⟩

theorem Target.Code.last_isOfCalls {steps : List Step} {last : Instr}
    (h : Target.Code rules table scope steps code last) : last.op.isOfCalls = false := by
  rcases h.last_eq with ⟨l, _, rfl⟩ | ⟨field, rfl⟩ | rfl <;> rfl

/-- **A statement makes no call that the rules do not allow.** -/
theorem Clause.Code.permits {clause : Clause}
    (h : Clause.Code rules table start scope clause code scope' marks) :
    rules.PermitsAll code := by
  induction h with
  | ret h | declare h => exact permitsAll_append.mpr ⟨h.permits, permitsAll_singleton rfl⟩
  | declareNull => exact permitsAll_cons_other rfl (permitsAll_singleton rfl)
  | assign ht h =>
    exact permitsAll_append.mpr ⟨permitsAll_append.mpr ⟨ht.permits, h.permits⟩,
      permitsAll_singleton ht.last_isOfCalls⟩
  | whileLoop ht _ ih =>
    exact permitsAll_append.mpr ⟨permitsAll_append.mpr ⟨ht.permits, permitsAll_cons_other rfl ih⟩,
      permitsAll_singleton rfl⟩
  | forLoop hi hl _ ih =>
    simp only [permitsAll_append]
    exact ⟨⟨⟨⟨hi.permits, permitsAll_cons_other rfl (permitsAll_append.mpr
        ⟨permitsAll_cons_other rfl hl.permits, permitsAll_singleton rfl⟩)⟩,
      permitsAll_cons_other rfl ih⟩, permitsAll_countingCode _ _⟩, permitsAll_singleton rfl⟩
  | branch _ ih | next _ ih | orElse _ ih => exact ih
  | call hcall h =>
    exact permitsAll_append.mpr ⟨permitsAll_append.mpr ⟨h.permits, permitsAll_callCode hcall⟩,
      permitsAll_singleton rfl⟩
  | nil | noNext | noElse => exact permitsAll_nil
  | cons _ _ ih ih' => exact permitsAll_append.mpr ⟨ih, ih'⟩
  | arm _ ht _ _ _ ihb ihn ihe =>
    simp only [permitsAll_append]
    exact ⟨⟨⟨ht.permits, permitsAll_cons_other rfl ihb⟩, permitsAll_cons_other rfl ihn⟩, ihe⟩

end

/-- **A compiled function makes no call that the rules for its tree do not allow.** -/
theorem Function.permits_of_lower {f : Function} {table : RecordTable} {rules : Rules}
    {r : Routine} (h : f.lower table = .ok r) (ho : Stmt.allObey rules f.body = true) :
    rules.PermitsAll r.code.toList := by
  obtain ⟨code, hcode, rfl, -⟩ := Function.lower_eq_ok h
  obtain ⟨body, scope', rfl, hbody⟩ := Function.code_eq_ok hcode ho
  refine permitsAll_append.mpr
    ⟨permitsAll_append.mpr ⟨permitsAll_storeCode _ _, hbody.permits⟩, ?_⟩
  rw [endCode]
  split
  · exact permitsAll_nil
  · exact permitsAll_cons_other rfl (permitsAll_singleton rfl)

/-! ## What a function can call -/

/-- The rules that allow every call but those of one name. -/
def Rules.avoiding (name : String) : Rules where
  call other _ := other != name
  arm _ _ := true

/-- The function has a call of the other one. -/
def Function.Calls (f g : Function) : Prop := Stmt.allObey (.avoiding g.name) f.body = false

/-- A call of the function can lead to activations of another one, or of itself. -/
inductive Program.Involves (p : Program) (f : Function) : Function → Prop
  | itself : Involves p f f
  | next {g h : Function} (hg : Involves p f g) (hh : h ∈ p.functions) (hcalls : g.Calls h) :
    Involves p f h

/-- Neither the function nor any that it can call starts threads or waits for them. -/
def Program.Threadless (p : Program) (f : Function) : Prop :=
  ∀ g, p.Involves f g → Stmt.allObey .threadless g.body = true

/-- A `CALL` in compiled code is of a function that the tree calls. -/
theorem Function.calls_of_lower {f g : Function} {table : RecordTable} {r : Routine} {i : Instr}
    (h : f.lower table = .ok r) (hi : i ∈ r.code.toList) (hop : i.op = .call)
    (harg : i.arg = some (.name g.name)) : f.Calls g := by
  refine Bool.eq_false_iff.mpr fun ho => ?_
  obtain ⟨-, n, hn⟩ := (Function.permits_of_lower h ho i hi).call hop g.name harg
  have hne : (g.name != g.name) = true := hn
  rw [bne_self_eq_false] at hne
  cases hne

/-- Under rules without threads no instruction starts a thread or waits for one. -/
theorem Rules.Permits.threadless {i : Instr} (h : Rules.threadless.Permits i) :
    i.op ≠ .thread ∧ i.op ≠ .wait := by
  constructor
  · intro hop
    obtain ⟨n, hn⟩ := h.thread hop
    cases hn
  · intro hop
    obtain ⟨n, hn⟩ := h.wait hop
    cases hn

end Opstack
