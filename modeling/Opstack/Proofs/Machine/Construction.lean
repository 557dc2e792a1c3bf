import Opstack.Proofs.Machine.Correspondence
import Opstack.Proofs.Machine.Evaluating
import Opstack.Proofs.Machine.Spawning

/-!
# Constructing a record

A record is allocated without fields.  Then the reference is duplicated for each field, the
initializer is evaluated on top of both, and a `SETF` takes its value and one of the references off
again.  So as long as this goes on there are one or two references to the record in the whole
machine, on the operand stack of the execution, below everything that the initializers work with.

* `Construction` names what is constructed, by which activation and above which operands.
* `Construction.Stage` says where an execution is in the sequence, and that it has the reference
  nowhere else.  `Construction.Builds` says the same of a task, which may also be waiting for a
  thread.
* `Construction.Builds.turns`: with a turn such a task stays where it is, sets the next field to the
  value of its initializer, or breaks off.
-/

set_option autoImplicit false

namespace Opstack

/-! ## The code -/

/-- The code that sets fields of the record on top of the stack, each with the code of its
initializer. -/
def fieldsCode : List (String × List Instr) → List Instr
  | [] => []
  | (field, code) :: rest => .plain .dup :: code ++ .setf field :: fieldsCode rest

theorem fieldsCode_append (fields more : List (String × List Instr)) :
    fieldsCode (fields ++ more) = fieldsCode fields ++ fieldsCode more := by
  induction fields with
  | nil => rfl
  | cons part rest ih => simp [fieldsCode, ih]

/-- The code that sets fields is made of the codes of their initializers. -/
theorem exists_parts_of_lowerFields {table : RecordTable} {scope : Scope} {names : List String}
    {es : List Expr} {code : List Instr} (hlength : names.length = es.length)
    (h : lowerFields table scope names es = .ok code) :
    ∃ parts : List (String × List Instr), parts.map Prod.fst = names ∧
      es.map (lowerExpr table scope) = parts.map (fun part => .ok part.2) ∧
      code = fieldsCode parts := by
  induction names generalizing es code with
  | nil =>
    cases es with
    | nil =>
      cases h
      exact ⟨[], rfl, rfl, rfl⟩
    | cons e rest => cases hlength
  | cons name names ih =>
    cases es with
    | nil => cases hlength
    | cons e rest =>
      simp only [lowerFields, bind_eq_ok, pure_eq_ok] at h
      obtain ⟨first, hfirst, later, hlater, rfl⟩ := h
      obtain ⟨parts, rfl, hparts, rfl⟩ := ih (Nat.succ.inj hlength) hlater
      exact ⟨(name, first) :: parts, rfl, by rw [List.map_cons, hfirst, hparts]; rfl, rfl⟩

/-- The code of an expression that constructs a record allocates it and sets its fields. -/
theorem exists_parts_of_lowerExpr {table : RecordTable} {scope : Scope} {type : String}
    {args : List Expr} {code : List Instr}
    (h : lowerExpr table scope (.newRecord type args) = .ok code) :
    ∃ parts : List (String × List Instr), table.lookup type = some (parts.map Prod.fst) ∧
      args.map (lowerExpr table scope) = parts.map (fun part => .ok part.2) ∧
      code = .plain .allocs :: fieldsCode parts := by
  simp only [lowerExpr] at h
  cases hlookup : table.lookup type with
  | none =>
    rw [hlookup] at h
    cases h
  | some names =>
    simp only [hlookup] at h
    split at h
    · rename_i hlength
      simp only [bind_eq_ok, pure_eq_ok] at h
      obtain ⟨later, hlater, rfl⟩ := h
      obtain ⟨parts, rfl, hargs, rfl⟩ := exists_parts_of_lowerFields hlength hlater
      exact ⟨parts, rfl, hargs, rfl⟩
    · cases h

/-- A `SETF` that finds a value and a reference sets the field. -/
theorem Execution.setField_of_operands {x : Execution} {heap : Heap} {field : String}
    {o : ObjectId} {v : Value} {rest : List Value} (hoperands : x.operands = v :: .ref o :: rest) :
    x.setField heap (.setf field) = ((heap.setField o field v).1.map fun _ =>
      { x with operands := rest }, (heap.setField o field v).2) := by
  obtain ⟨thread, call, operands, frames⟩ := x
  cases hoperands
  simp only [setField, pop, bind, Except.bind, pure, Except.pure, Value.asObject, Instr.nameArg,
    Instr.setf]
  rcases heap.setField o field v with ⟨_ | _, _⟩ <;> rfl

/-- The turn of the task breaks its execution off: an instruction fails or finds no end, or the
thread that it waits for has no value for it. -/
inductive Task.BreaksOff (s : Shared) : Task → Prop
  | fails {s' : Shared} {x : Execution} {e : Failure} (h : step s x = (s', .fails e)) :
      BreaksOff s (.running x)
  | crashes {s' : Shared} {x : Execution} (h : step s x = (s', .crashes)) :
      BreaksOff s (.running x)
  | denied {x : Execution} {thread : ThreadId} {site : Site} {e : Failure}
      (h : resume x thread site (s.outcomeOf thread) = .failing x.thread x.call e) :
      BreaksOff s (.waiting x thread site)

/-! ## Constructions -/

/-- The construction of a record by an activation. -/
structure Construction where
  /-- The activation. -/
  activation : Activation
  /-- The thread of its execution. -/
  thread : Option ThreadId
  /-- The call of its execution. -/
  call : Nat
  /-- The operands that were there before. -/
  base : List Value
  /-- The number of the record. -/
  object : ObjectId
  /-- The place of the `ALLOCS`. -/
  start : Nat
  /-- The fields with the codes of their initializers. -/
  fields : List (String × List Instr)

namespace Construction

section

variable (c : Construction)

/-- The names of the fields. -/
def names : List String := c.fields.map Prod.fst

/-- The place where so many fields have been set. -/
def place (k : Nat) : Nat := c.start + 1 + (fieldsCode (c.fields.take k)).length

/-- The value is no reference to the record. -/
def IsOther (v : Value) : Prop := v ≠ .ref c.object

/-- Below the operands of the construction lie those that were there before. -/
def below (n : Nat) : Execution :=
  ⟨c.thread, c.call, List.replicate n (.ref c.object) ++ c.base, []⟩

/-- The execution with so many references to the record below its operands. -/
def upon (n : Nat) (y : Execution) : Execution :=
  ⟨c.thread, c.call, y.operands ++ (List.replicate n (.ref c.object) ++ c.base), y.frames⟩

/-- The execution is the one that constructs the record, apart from the references to it. -/
structure Apart (y : Execution) : Prop where
  /-- It belongs to the thread. -/
  thread : y.thread = c.thread
  /-- It belongs to the call. -/
  call : y.call = c.call
  /-- It has no reference to the record. -/
  hasOnly : y.HasOnly c.IsOther

/-- The activation executes the code of the construction, in a program, and nothing that was there
before refers to the record. -/
structure IsOf (p : Program) : Prop where
  /-- The code stands in the routine of the activation. -/
  code : c.activation.routine.Holds (c.start + 1) (fieldsCode c.fields)
  /-- The initializers are codes of expressions. -/
  initializers : ∀ part ∈ c.fields, ∃ scope e,
    Term.Code p.callRules (p.table []) scope (.expr e) part.2
  /-- The operands that were there before do not refer to the record. -/
  base : ∀ v ∈ c.base, c.IsOther v

/-- Where the execution is once so many fields have been set: in front of the next one, with the
reference on top of the operands that were there before, or in the initializer of the next one,
with the reference there twice.  It has no other reference to the record. -/
inductive Stage (p : Program) (k : Nat) : Execution → Prop
  | between {y : Execution} (hy : c.Apart y) (hat : c.activation.At (c.place k) y)
      (hoperands : y.operands = []) : Stage p k (c.upon 1 y)
  | evaluating {y : Execution} {field : String} {code : List Instr}
      (hfield : c.fields[k]? = some (field, code)) (hy : c.Apart y)
      (heval : p.Evaluating c.activation (c.place k + 1) code y) : Stage p k (c.upon 2 y)

/-- The task is the execution that constructs the record, with so many fields set.  It may be
waiting for a result, which is no reference to the record. -/
inductive Builds (p : Program) (k : Nat) : Task → Prop
  | running {x : Execution} (h : c.Stage p k x) : Builds p k (.running x)
  | waiting {x : Execution} {thread : ThreadId} {site : Site}
      (h : ∀ v, c.IsOther v → c.Stage p k (x.push v)) : Builds p k (.waiting x thread site)

/-- The execution is about to set the next field to a value, the one that its initializer has
left. -/
structure Sets (k : Nat) (v : Value) (x : Execution) : Prop where
  /-- It belongs to the thread. -/
  thread : x.thread = c.thread
  /-- It belongs to the call. -/
  call : x.call = c.call
  /-- It is at the `SETF`, right behind the initializer. -/
  at_setf : c.activation.At (c.place (k + 1) - 1) x
  /-- The value is on top of two references. -/
  operands : x.operands = v :: .ref c.object :: .ref c.object :: c.base

/-- What a turn of a task that constructs the record can come to, with so many fields set: it stays
where it is, it sets the next field, or it breaks off.  Nothing else gets a reference to the
record. -/
inductive Turns (p : Program) (k : Nat) (s : Shared) (t : Task) (fields : List (String × Value)) :
    Shared × List Task → Prop
  | stays {s' : Shared} (more : List Task) {t' : Task} (hs' : s'.HasOnly c.IsOther)
      (hfind : s'.heap.find? c.object = some (.record fields))
      (hmore : ∀ u ∈ more, u.HasOnly c.IsOther) (ht' : c.Builds p k t') :
      Turns p k s t fields (s', more ++ [t'])
  | sets {s' : Shared} {x : Execution} {field : String} {code : List Instr} {v : Value}
      {t' : Task} (ht : t = .running x) (hfield : c.fields[k]? = some (field, code))
      (hsets : c.Sets k v x) (hs' : s'.HasOnly c.IsOther)
      (hfind : s'.heap.find? c.object = some (.record (withField fields field v)))
      (ht' : c.Builds p (k + 1) t') : Turns p k s t fields (s', [t'])
  | breaks {r : Shared × List Task} (hbreaks : t.BreaksOff s)
      (hleaves : Task.LeavesOnly c.IsOther r) : Turns p k s t fields r

end

/-! ## Places -/

section

variable {c : Construction} {p : Program} {k : Nat} {field : String} {code : List Instr}
  {x y : Execution} {s : Shared} {i : Instr}

theorem place_succ (h : c.fields[k]? = some (field, code)) :
    c.place (k + 1) = c.place k + 1 + code.length + 1 := by
  rw [place, place, List.take_add_one, h, fieldsCode_append]
  simp [fieldsCode]
  omega

/-- The code of the next field: `DUP`, the initializer and `SETF`. -/
theorem IsOf.next (hc : c.IsOf p) (h : c.fields[k]? = some (field, code)) :
    c.activation.routine.get? (c.place k) = some (.plain .dup) ∧
      c.activation.routine.Holds (c.place k + 1) code ∧
      c.activation.routine.get? (c.place k + 1 + code.length) = some (.setf field) := by
  have hfields : c.fields = c.fields.take k ++ (field, code) :: c.fields.drop (k + 1) := by
    obtain ⟨hlt, hget⟩ := List.getElem?_eq_some_iff.mp h
    rw [← hget, List.getElem_cons_drop, List.take_append_drop]
  have hcode := hc.code
  rw [hfields, fieldsCode_append, fieldsCode] at hcode
  simp only [holds_append, holds_cons, List.cons_append] at hcode
  exact ⟨hcode.2.1, hcode.2.2.1, hcode.2.2.2.1⟩

/-! ## References to the record -/

theorem allButRefs_isOther (c : Construction) : AllButRefs c.IsOther := by
  rintro v hv rfl
  cases hv

/-- What is allocated beside the record is another object. -/
theorem addsOnly_isOther {h : Heap} {object : Obj} (hfind : h.find? c.object = some object)
    (h' : Heap) : h.AddsOnly c.IsOther h' := by
  rintro o ho - heq
  cases heq
  cases hfind.symm.trans ho

theorem ne_nextObject {h : Heap} {object : Obj} (hfind : h.find? c.object = some object) :
    c.object ≠ h.nextObject := by
  intro heq
  rw [heq, h.find?_nextObject] at hfind
  cases hfind

/-- An instruction changes only objects that its execution has references to. -/
theorem target?_ne (hx : ∀ v ∈ x.operands, c.IsOther v) (i : Instr) :
    x.target? i ≠ some c.object := by
  have hnone : ∀ v ∈ x.operands, v.asRef? ≠ some c.object := by
    intro v hv hobject
    cases v <;> cases hobject
    exact hx _ hv rfl
  rw [Execution.target?]
  split
  · rename_i hoperands
    exact hnone _ (by rw [hoperands]; simp)
  · rename_i hoperands
    exact hnone _ (by rw [hoperands]; simp)
  · exact fun h => by cases h

theorem upon_eq_onto (c : Construction) (n : Nat) (y : Execution) :
    c.upon n y = y.onto (c.below n) := by
  rw [upon, Execution.onto, below, List.append_nil]

/-- The step of an instruction that finds its operands is one apart from the references. -/
theorem step_upon (hy : c.Apart y) (hi : y.instr? = some i)
    (hpops : i.op.pops ≤ y.operands.length) (n : Nat) :
    step s (c.upon n y) = ((step s y).1, (step s y).2.onto (c.below n)) := by
  rw [upon_eq_onto]
  exact step_onto_operands hi hpops hy.call.symm rfl

theorem Apart.next {routines : List Routine} (hy : c.Apart y) (hnext : y.Next routines x)
    (hx : x.HasOnly c.IsOther) : c.Apart x :=
  ⟨hnext.owner_eq.1.trans hy.thread, hnext.owner_eq.2.trans hy.call, hx⟩

/-! ## Steps -/

theorem Apart.passed (hy : c.Apart y) : c.Apart y.passed :=
  ⟨y.owner_passed.1.trans hy.thread, y.owner_passed.2.trans hy.call, hy.hasOnly.passed⟩

theorem passed_upon (c : Construction) (n : Nat) (y : Execution) :
    (c.upon n y).passed = c.upon n y.passed := by
  obtain ⟨thread, call, operands, _ | ⟨f, fs⟩⟩ := y <;> rfl

/-- A `DUP` leaves the reference twice. -/
theorem step_dup (hi : y.instr? = some (.plain .dup)) (hrun : s.isHalted = false)
    (hoperands : y.operands = []) : step s (c.upon 1 y) = (s, .continues (c.upon 2 y.passed)) := by
  have hpassed : y.passed.operands = [] := y.operands_passed.trans hoperands
  have hdup : (c.upon 1 y.passed).dup = .ok (c.upon 2 y.passed) := by
    rw [Execution.dup, upon, hpassed]
    simp only [Execution.push, upon, hpassed]
    rfl
  rw [step_of_instr? (x := c.upon 1 y) hi hrun, passed_upon, perform]
  simp only [Instr.plain, hdup]
  rfl

/-- A `SETF` takes the value and one of the references off and sets the field. -/
theorem step_setf {v : Value} {fields : List (String × Value)}
    (hi : y.instr? = some (.setf field)) (hrun : s.isHalted = false) (hoperands : y.operands = [v])
    (hfind : s.heap.find? c.object = some (.record fields)) :
    step s (c.upon 2 y) =
      ({ s with heap := s.heap.put c.object (.record (withField fields field v)) },
        .continues (c.upon 1 { y.passed with operands := [] })) := by
  have hpassed : y.passed.operands = [v] := y.operands_passed.trans hoperands
  have htaken : (c.upon 2 y.passed).operands = v :: .ref c.object :: .ref c.object :: c.base := by
    rw [upon, hpassed]
    rfl
  have hset : s.heap.setField c.object field v =
      (.ok (), s.heap.put c.object (.record (withField fields field v))) := by
    rcases s.heap.setField_cases c.object field v with ⟨old, hold, heq⟩ | ⟨hnone, -⟩
    · cases hfind.symm.trans hold
      exact heq
    · rw [Heap.isRecord, hfind] at hnone
      cases hnone
  have hperform : ∀ x, perform s x (.setf field) =
      ({ s with heap := (x.setField s.heap (.setf field)).2 },
        .ofExcept (x.setField s.heap (.setf field)).1) := fun _ => rfl
  rw [step_of_instr? (x := c.upon 2 y) hi hrun, passed_upon, hperform,
    Execution.setField_of_operands htaken, hset]
  rfl

/-! ## Turns -/

theorem turns_of_fails {s' : Shared} {e : Failure} {fields : List (String × Value)}
    (h : step s x = (s', .fails e)) (hs' : s'.HasOnly c.IsOther) :
    c.Turns p k s (.running x) fields ((Task.running x).turn s) := by
  rw [Task.turn_of_fails h]
  exact .breaks (.fails h) ⟨hs', List.forall_mem_singleton.mpr trivial⟩

section

variable {fields : List (String × Value)}

/-- In front of a field the reference is duplicated. -/
theorem turns_between (hc : c.IsOf p) (hs : s.HasOnly c.IsOther)
    (hfind : s.heap.find? c.object = some (.record fields))
    (hfield : c.fields[k]? = some (field, code)) (hy : c.Apart y)
    (hat : c.activation.At (c.place k) y) (hoperands : y.operands = []) :
    c.Turns p k s (.running (c.upon 1 y)) fields ((Task.running (c.upon 1 y)).turn s) := by
  have hi : y.instr? = some (.plain .dup) := hat.instr?_eq.trans (hc.next hfield).1
  cases hhalted : s.isHalted with
  | true => exact turns_of_fails (step_of_isHalted (x := c.upon 1 y) hi hhalted) hs
  | false =>
    rw [Task.turn_of_continues (step_dup hi hhalted hoperands)]
    refine .stays [] hs hfind (List.forall_mem_nil _) (.running (.evaluating hfield hy.passed ?_))
    exact .start hat.passed (y.operands_passed.trans hoperands)

/-- Behind the initializer of a field the field is set to its value. -/
theorem turns_setf (hc : c.IsOf p) (hs : s.HasOnly c.IsOther)
    (hfind : s.heap.find? c.object = some (.record fields))
    (hfield : c.fields[k]? = some (field, code)) (hy : c.Apart y)
    (heval : p.Evaluating c.activation (c.place k + 1) code y)
    (hat : c.activation.At (c.place k + 1 + code.length) y) :
    c.Turns p k s (.running (c.upon 2 y)) fields ((Task.running (c.upon 2 y)).turn s) := by
  obtain ⟨scope, e, hcode⟩ := hc.initializers _ (List.mem_of_getElem? hfield)
  obtain ⟨v, hoperands⟩ := heval.exists_value hcode hat
  have hv : c.IsOther v := hy.hasOnly.operands v (by rw [hoperands]; exact List.mem_cons_self)
  have hi : y.instr? = some (.setf field) := hat.instr?_eq.trans (hc.next hfield).2.2
  have hplace := place_succ hfield
  cases hhalted : s.isHalted with
  | true => exact turns_of_fails (step_of_isHalted (x := c.upon 2 y) hi hhalted) hs
  | false =>
    have hheap : (s.heap.put c.object (.record (withField fields field v))).HasOnly c.IsOther :=
      hs.heap.serve (c.allButRefs_isOther _ rfl) (.setField field v hfind) fun w hw =>
        Option.some.inj hw ▸ hv
    have hsets : c.Sets k v (c.upon 2 y) := by
      refine ⟨rfl, rfl, ?_, by rw [upon, hoperands]; rfl⟩
      rw [hplace, Nat.add_sub_cancel]
      exact hat
    rw [Task.turn_of_continues (step_setf hi hhalted hoperands hfind)]
    refine .sets rfl hfield hsets ⟨hheap, hs.routines, hs.threads⟩
      ((Heap.find?_put hfind _ c.object).trans (if_pos rfl))
      (.running (.between ⟨hy.passed.thread, hy.passed.call, ?_⟩ ?_ rfl))
    · exact hy.passed.hasOnly.of_subset (List.nil_subset _)
    · rw [hplace]
      exact hat.passed

/-- Within an initializer the execution does what it would do without the references. -/
theorem turns_evaluating (hp : p.WellCalled) (hl : p.LoadedIn s.routines) (hc : c.IsOf p)
    (hs : s.HasOnly c.IsOther) (hfind : s.heap.find? c.object = some (.record fields))
    (hfield : c.fields[k]? = some (field, code)) (hy : c.Apart y)
    (heval : p.Evaluating c.activation (c.place k + 1) code y) (hinside : Inside y.frames)
    (hnot : ¬ c.activation.At (c.place k + 1 + code.length) y) :
    c.Turns p k s (.running (c.upon 2 y)) fields ((Task.running (c.upon 2 y)).turn s) := by
  obtain ⟨scope, e, hcode⟩ := hc.initializers _ (List.mem_of_getElem? hfield)
  obtain ⟨-, hholds, -⟩ := hc.next hfield
  obtain ⟨i, hi, hpops⟩ := heval.exists_instr hp hcode hholds hinside hnot
  have hstep := step_upon (s := s) hy hi hpops 2
  have hshared := hs.step (c.allButRefs_isOther _ rfl) hy.hasOnly
  have hturn := Execution.step_hasOnly hs c.allButRefs_isOther hy.hasOnly (addsOnly_isOther hfind _)
  have hkept := (find?_step s y (ne_nextObject hfind) fun j _ =>
    target?_ne hy.hasOnly.operands j).trans hfind
  have hfollows := step_follows s y
  have hupon : ∀ z, z.onto (c.below 2) = c.upon 2 z := fun z => (c.upon_eq_onto 2 z).symm
  have hgoes : ∀ {z}, y.Next s.routines z → z.HasOnly c.IsOther → c.Stage p k (c.upon 2 z) :=
    fun hnext hz => .evaluating hfield (hy.next hnext hz) (heval.next hp hl hcode hholds hnot hnext)
  generalize h : step s y = r at hstep hshared hturn hkept hfollows
  obtain ⟨s', turn⟩ := r
  cases turn with
  | continues z =>
    rw [Turn.onto, hupon] at hstep
    rw [Task.turn_of_continues hstep]
    exact .stays [] hshared hkept (List.forall_mem_nil _)
      (.running (hgoes (.continues rfl h) hturn))
  | spawns z child =>
    rw [Turn.onto, hupon] at hstep
    rw [Task.turn_of_spawns hstep]
    exact .stays [.running child] hshared hkept (List.forall_mem_singleton.mpr hturn.2)
      (.running (hgoes (.spawns rfl h) hturn.1))
  | waits z thread site =>
    rw [Turn.onto, hupon] at hstep
    rw [Task.turn_of_waits hstep]
    refine .stays [] hshared hkept (List.forall_mem_nil _) (.waiting fun v hv => ?_)
    exact hgoes (.waits v rfl h) (hturn.push hv)
  | returns v => cases hi.symm.trans hfollows
  | fails e => exact turns_of_fails hstep hshared
  | crashes =>
    rw [Task.turn_of_crashes hstep]
    exact .breaks (.crashes hstep) (Task.leavesOnly_crash hshared _)

/-- **One turn** of a task that constructs the record and has not set all fields yet. -/
theorem Builds.turns {t : Task} (h : c.Builds p k t) (hp : p.WellCalled)
    (hl : p.LoadedIn s.routines) (hc : c.IsOf p) (hs : s.HasOnly c.IsOther)
    (hfind : s.heap.find? c.object = some (.record fields)) (hk : k < c.fields.length)
    (hinside : ∀ x, t = .running x → Inside x.frames) :
    c.Turns p k s t fields (t.turn s) := by
  cases h with
  | running h =>
    cases h with
    | between hy hat hoperands =>
      exact turns_between hc hs hfind (List.getElem?_eq_getElem hk) hy hat hoperands
    | @evaluating y field code hfield hy heval =>
      by_cases hat : c.activation.At (c.place k + 1 + code.length) y
      · exact turns_setf hc hs hfind hfield hy heval hat
      · exact turns_evaluating hp hl hc hs hfind hfield hy heval (hinside (c.upon 2 y) rfl) hat
  | @waiting x thread site h =>
    have houtcome : (s.outcomeOf thread).HasOnly c.IsOther := by
      rw [Shared.outcomeOf]
      split
      · rename_i r hr
        exact hs.threads thread r hr
      · trivial
    generalize hr : s.outcomeOf thread = outcome at houtcome
    rw [Task.turn_of_outcome hr]
    have hdenied : ∀ {e}, Task.resume x thread site outcome = .failing x.thread x.call e →
        c.Turns p k s (.waiting x thread site) fields
          (s, [Task.resume x thread site outcome]) := fun he =>
      .breaks (.denied (hr ▸ he)) ⟨hs, List.forall_mem_singleton.mpr (he ▸ trivial)⟩
    cases outcome with
    | running => exact .stays [] hs hfind (List.forall_mem_nil _) (.waiting h)
    | crashed => exact hdenied rfl
    | finished result =>
      cases result with
      | ok v => exact .stays [] hs hfind (List.forall_mem_nil _) (.running (h v houtcome))
      | error e => exact hdenied rfl

end

end

end Construction

end Opstack
