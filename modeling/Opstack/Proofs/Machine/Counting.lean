import Opstack.Proofs.Machine.Passages

/-!
# Counted loops

A counted loop evaluates its start once and its bound in every round, and executes its body as long
as the variable has not passed the bound.  If the start is `first`, the bound is `last` every time,
and the body does not assign the variable, then the variable goes through the integers from `first`
to `last`, and nothing else is executed (`Stmt.passes_forLoop`).

This needs a bound that is not the largest integer.  Behind that one the variable starts again at
the smallest integer, and so it never passes the bound: such a loop does not end, unless its body
leaves it (`Stmt.forLoop_through_max`).

* `PlacedLoop` names the places of a loop in a routine.
* `Activation.RunsLoop` says what running a loop means: for which values of the variable the body is
  executed, one round after the other.
* `Activation.Completes` says that the parts of a loop come to their ends.
-/

set_option autoImplicit false

namespace Opstack

/-! ## Integers in a row -/

/-- The integers from one to another, both included. -/
def integers (first last : Int) : List Int :=
  (List.range (last - first + 1).toNat).map fun k : Nat => first + k

theorem integers_of_lt {first last : Int} (h : last < first) : integers first last = [] := by
  rw [integers, Int.toNat_of_nonpos (by omega)]
  rfl

theorem integers_of_le {first last : Int} (h : first ≤ last) :
    integers first last = first :: integers (first + 1) last := by
  rw [integers, integers,
    show (last - first + 1).toNat = (last - (first + 1) + 1).toNat + 1 by omega,
    List.range_succ_eq_map, List.map_cons, List.map_map]
  refine List.cons_eq_cons.mpr ⟨Int.add_zero _, List.map_congr_left fun k _ => ?_⟩
  change first + (k + 1 : Nat) = first + 1 + k
  omega

/-- Below the largest integer the next one is one more. -/
theorem toInt_add_one {i last : Int64} (hle : i ≤ last) (hlast : last ≠ Int64.maxValue) :
    (i + 1).toInt = i.toInt + 1 := by
  have hi := i.le_toInt
  have hle := Int64.le_iff_toInt_le.mp hle
  have hlt : last.toInt < Int64.maxValue.toInt :=
    Int.lt_iff_le_and_ne.mpr ⟨last.toInt_le, fun h => hlast (Int64.toInt.inj h)⟩
  rw [Int64.toInt_maxValue] at hlt
  rw [Int64.toInt_add, Int64.toInt_one, Int.bmod_eq_of_le] <;> omega

/-! ## Where a loop stands -/

/-- The places of a counted loop in a routine. -/
structure PlacedLoop where
  /-- The slot of its variable. -/
  slot : Nat
  /-- Where the start begins. -/
  start : Nat
  /-- The `STORE` behind the start.  A round begins behind it with the `LOAD` of the variable, and
  the bound behind that. -/
  store : Nat
  /-- The `CMPLE` behind the bound.  Behind it stands the `JMPF`, and behind that the body. -/
  compare : Nat
  /-- Where the variable is counted, in four instructions behind the body.  The `JMP` stands behind
  them and ends the loop. -/
  count : Nat

/-- The instruction is not part of the start, the bound or the body. -/
def PlacedLoop.Own (q : PlacedLoop) (pc : Nat) : Prop :=
  pc = q.store ∨ pc = q.store + 1 ∨ pc = q.compare ∨ pc = q.compare + 1 ∨
    q.count ≤ pc ∧ pc < q.count + 5

/-- The parts of a loop stand at its places, each as it is compiled in its scope: `scope` for the
start, one with the variable for the bound, and a block of this for the body. -/
structure PlacedLoop.Stands (table : RecordTable) (r : Routine) (q : PlacedLoop)
    (scope inner : Scope) (name : String) (first last : Expr) (body : List Stmt) : Prop where
  /-- The start. -/
  first : ∃ code, lowerExpr table scope first = .ok code ∧ r.Holds q.start code ∧
    q.store = q.start + code.length
  /-- The variable gets its first value. -/
  store : r.get? q.store = some (.store q.slot)
  /-- It is compared in every round. -/
  load : r.get? (q.store + 1) = some (.load q.slot)
  /-- The bound. -/
  last : ∃ code, lowerExpr table (scope.extend name) last = .ok code ∧
    r.Holds (q.store + 2) code ∧ q.compare = q.store + 2 + code.length
  /-- The comparison with the bound. -/
  compare : r.get? q.compare = some (.plain (.binary .cmple))
  /-- The jump to the end. -/
  jump : r.get? (q.compare + 1) = some (.jmpf (q.count + 5))
  /-- The body. -/
  body : ∃ code, lowerStmts table (q.compare + 2) (scope.extend name).enter body =
    .ok (code, inner) ∧ r.Holds (q.compare + 2) code ∧ q.count = q.compare + 2 + code.length
  /-- The variable is counted. -/
  count : r.Holds q.count (countingCode name q.slot)
  /-- The jump to the next round. -/
  back : r.get? (q.count + 4) = some (.jmp (q.store + 1))
  /-- The variable is the next one that is declared. -/
  slot : q.slot = scope.slotCount
  /-- The scope is that of open blocks. -/
  nested : scope.Nested
  /-- No two of its variables share a slot. -/
  ordered : scope.Ordered

theorem exists_stands_of_lowerStmt {table : RecordTable} {r : Routine} {start : Nat}
    {scope scope' : Scope} {name : String} {first last : Expr} {body : List Stmt}
    {code : List Instr} (h : lowerStmt table start scope (.forLoop name first last body) =
      .ok (code, scope')) (hs : scope.Nested) (ho : scope.Ordered)
    (hcode : r.Holds start code) : ∃ (q : PlacedLoop) (inner : Scope),
      q.Stands table r scope.enter inner name first last body ∧ q.start = start ∧
        q.count + 5 = start + code.length := by
  simp only [lowerStmt, bind_eq_ok, pure_eq_ok] at h
  obtain ⟨init, hi, ⟨slot, scope₁⟩, hd, bound, hl, ⟨code', inner⟩, hb, heq⟩ := h
  obtain ⟨rfl, rfl⟩ := Scope.declare_eq_ok hd
  have hlength : (Instr.load scope.enter.slotCount :: bound ++
      [Instr.plain (.binary .cmple)]).length = bound.length + 2 := by simp
  rw [hlength] at hb heq
  have hbody : start + init.length + 1 + (bound.length + 2) + 1 =
      start + init.length + 1 + 1 + bound.length + 2 := by omega
  rw [hbody] at hb heq
  cases heq
  obtain ⟨hinit, hstore, hload, hbound, hcompare, hjump, hcode', hcount, hback⟩ :=
    (holds_forLoop rfl).mp hcode
  refine ⟨{ slot := scope.slotCount
            start
            store := start + init.length
            compare := start + init.length + 1 + 1 + bound.length
            count := start + init.length + 1 + 1 + bound.length + 2 + code'.length }, inner,
    ⟨⟨init, hi, hinit, rfl⟩, hstore, hload, ⟨bound, hl, hbound, rfl⟩, hcompare, hjump,
      ⟨code', hb, hcode', rfl⟩, hcount, hback, rfl, hs.enter, ho.enter⟩,
    rfl, ?_⟩
  simp only [List.length_append, List.length_cons, List.length_nil, countingCode]
  omega

/-! ## The instructions of a loop -/

/-- The slot lies below the limit, and a list of slots can have it. -/
def Shared.Room (s : Shared) (slot : Nat) : Prop :=
  slot < s.config.maxFrameSlots ∧ slot < s.config.host.capacity

namespace Execution

variable {s : Shared} {y : Execution} {thread : Option ThreadId} {call : Nat}
  {operands : List Value} {r : Routine} {slots : Array Value} {pc slot : Nat}
  {callers : List Frame} {v : Value} {i j : Int64}

theorem takes_load_iff (hi : r.get? pc = some (.load slot)) (hv : slots[slot]? = some v) :
    Takes s ⟨thread, call, operands, ⟨r, slots, pc⟩ :: callers⟩ y ↔
      s.isHalted = false ∧ y = ⟨thread, call, v :: operands, ⟨r, slots, pc + 1⟩ :: callers⟩ := by
  refine takes_iff hi ?_
  simp only [passed, perform, Instr.load, Instr.slotArg, Except.bind, load, Frame.load, hv]
  rfl

theorem takes_push_iff (hi : r.get? pc = some (.push v)) :
    Takes s ⟨thread, call, operands, ⟨r, slots, pc⟩ :: callers⟩ y ↔
      s.isHalted = false ∧ y = ⟨thread, call, v :: operands, ⟨r, slots, pc + 1⟩ :: callers⟩ :=
  takes_iff hi rfl

theorem takes_add_iff (hi : r.get? pc = some (.plain (.binary .add))) :
    Takes s ⟨thread, call, .int j :: .int i :: operands, ⟨r, slots, pc⟩ :: callers⟩ y ↔
      s.isHalted = false ∧
        y = ⟨thread, call, .int (i + j) :: operands, ⟨r, slots, pc + 1⟩ :: callers⟩ :=
  takes_iff hi rfl

theorem takes_cmple_iff (hi : r.get? pc = some (.plain (.binary .cmple))) :
    Takes s ⟨thread, call, .int j :: .int i :: operands, ⟨r, slots, pc⟩ :: callers⟩ y ↔
      s.isHalted = false ∧
        y = ⟨thread, call, .bool (decide (i ≤ j)) :: operands, ⟨r, slots, pc + 1⟩ :: callers⟩ :=
  takes_iff hi rfl

theorem takes_store {comment : Option String}
    (hi : r.get? pc = some ⟨.store, some (.slot slot), comment⟩) (hrun : s.isHalted = false)
    (hroom : s.Room slot) :
    Takes s ⟨thread, call, v :: operands, ⟨r, slots, pc⟩ :: callers⟩
      ⟨thread, call, operands, ⟨r, storeSlot slots slot v, pc + 1⟩ :: callers⟩ := by
  let c : Scene := ⟨s, thread, call, callers, r, [], hrun⟩
  have hperform : perform s ⟨thread, call, v :: operands, ⟨r, slots, pc + 1⟩ :: callers⟩
      ⟨.store, some (.slot slot), comment⟩ = _ := c.perform_store (w := ⟨s.heap, s.console⟩)
  rw [if_neg (Nat.not_le_of_lt hroom.1), if_neg (Nat.not_le_of_lt hroom.2)] at hperform
  have hinstr : instr? ⟨thread, call, v :: operands, ⟨r, slots, pc⟩ :: callers⟩ = _ := hi
  exact (takes_iff hinstr (congrArg Prod.snd hperform)).mpr ⟨hrun, rfl⟩

theorem Takes.eq_of_store {comment : Option String}
    (h : Takes s ⟨thread, call, v :: operands, ⟨r, slots, pc⟩ :: callers⟩ y)
    (hi : r.get? pc = some ⟨.store, some (.slot slot), comment⟩) :
    y = ⟨thread, call, operands, ⟨r, storeSlot slots slot v, pc + 1⟩ :: callers⟩ := by
  obtain ⟨i, hi', hdoes⟩ := (h.next rfl).does
  cases hi.symm.trans hi'
  generalize hz : passed _ = z at hdoes
  cases hdoes with
  | store _ harg =>
    cases harg
    cases hz
    rfl
  | work hop _ _ => cases hop
  | load hop _ _ | stay hop _ | jump hop _ | branch hop _ | enter hop _ _ | leave hop => cases hop

end Execution

/-! ## Running a loop -/

namespace Activation

variable (a : Activation) (routines : List Routine)

/-- The variable is compared with the bound, which has a given value; the outcome decides whether
there is a round. -/
inductive Tests (q : PlacedLoop) (upper : Int64) (outcome : Bool) :
    Execution → List Point → Execution → Prop
  | intro {x x₁ x₂ x₃ y : Execution} {points points₁ points₂ : List Point} {p : Point}
      (hload : a.Passes routines (q.store + 1) (q.store + 2) x points x₁)
      (hlast : a.Passes routines (q.store + 2) q.compare x₁ points₁ x₂)
      (hupper : x₂.operands = .int upper :: x₁.operands)
      (hcompare : a.Passes routines q.compare (q.compare + 1) x₂ points₂ x₃)
      (hdecides : a.Decides routines (q.compare + 1) (q.count + 5) outcome x₃ p y) :
      Tests q upper outcome x (points ++ (points₁ ++ (points₂ ++ [p]))) y

/-- The body is executed for these values of the variable, one round after the other, and then the
loop ends.  A value stays in the slot of the variable as long as the body is executed for it. -/
inductive RunsRounds (q : PlacedLoop) (upper : Int64) :
    List Int64 → Execution → List Point → Execution → Prop
  | nil {x y : Execution} {points : List Point}
      (htest : a.Tests routines q upper false x points y) : RunsRounds q upper [] x points y
  | cons {i : Int64} {is : List Int64} {x x₁ x₂ x₃ x₄ y : Execution}
      {points points₁ points₂ points₃ : List Point} {p : Point}
      (htest : a.Tests routines q upper true x points x₁)
      (hbody : a.Passes routines (q.compare + 2) q.count x₁ points₁ x₂)
      (hvalue : a.Keeps q.slot (.int i) x₁ ∧ ∀ p ∈ points₁, a.Keeps q.slot (.int i) p.execution)
      (hcount : a.Passes routines q.count (q.count + 4) x₂ points₂ x₃)
      (hback : a.Jumps routines (q.count + 4) (q.store + 1) x₃ p x₄)
      (hrest : RunsRounds q upper is x₄ points₃ y) :
      RunsRounds q upper (i :: is) x (points ++ (points₁ ++ (points₂ ++ p :: points₃))) y

/-- The start is evaluated and has a given value, which the variable gets, and the body is executed
for these values of the variable. -/
inductive RunsLoop (q : PlacedLoop) (lower upper : Int64) (is : List Int64) :
    Execution → List Point → Execution → Prop
  | intro {x x₁ x₂ y : Execution} {points points₁ points₂ : List Point}
      (hfirst : a.Passes routines q.start q.store x points x₁)
      (hlower : x₁.operands = .int lower :: x.operands)
      (hstore : a.Passes routines q.store (q.store + 1) x₁ points₁ x₂)
      (hrounds : RunsRounds a routines q upper is x₂ points₂ y) :
      RunsLoop q lower upper is x (points ++ (points₁ ++ points₂)) y

/-- Whenever these points go through the code of an expression, it leaves a given value upon the
operands that were there. -/
def Evaluates (low high : Nat) (v : Value) (points : List Point) : Prop :=
  ∀ front mid back s x y, points = front ++ (mid ++ ⟨s, y⟩ :: back) →
    a.Passes routines low high x mid y → y.operands = v :: x.operands

/-- Among the histories that can come about there is one in which the execution has taken a step at
each of these points, and has been in the code of the loop all the time. -/
structure Comes (q : PlacedLoop) (Can : List Point → Prop) (x : Execution) (points : List Point)
    (y : Execution) : Prop where
  /-- It can come about. -/
  can : Can points
  /-- It takes a step at each point. -/
  path : Execution.Path routines x points y
  /-- At each point it is in the loop. -/
  within : ∀ p ∈ points, a.Within q.start (q.count + 5) p.execution

/-- Among the histories that can come about, the parts of a loop come to their ends: the start with
a given value, the bound with another one every time, and the body.  The instructions of the loop
itself find the machine running, and room for the variable. -/
structure Completes (q : PlacedLoop) (lower upper : Int64) (Can : List Point → Prop)
    (x : Execution) : Prop where
  /-- The start. -/
  first : ∃ points y, Can points ∧ a.Passes routines q.start q.store x points y ∧
    y.operands = .int lower :: x.operands
  /-- The bound. -/
  last : ∀ points y, a.Comes routines q Can x points y → a.At (q.store + 2) y →
    ∃ points' z, Can (points ++ points') ∧
      a.Passes routines (q.store + 2) q.compare y points' z ∧ z.operands = .int upper :: y.operands
  /-- The body. -/
  body : ∀ points y, a.Comes routines q Can x points y → a.At (q.compare + 2) y →
    ∃ points' z, Can (points ++ points') ∧ a.Passes routines (q.compare + 2) q.count y points' z
  /-- The instructions of the loop. -/
  own : ∀ points y pc, a.Comes routines q Can x points y → a.At pc y → q.Own pc →
    ∃ s, Can (points ++ [⟨s, y⟩]) ∧ s.routines = routines ∧ s.isHalted = false ∧ s.Room q.slot

/-! ### One instruction -/

section

variable {a routines} {x y : Execution} {points : List Point} {pc slot : Nat} {v : Value}
  {i upper : Int64} {operands : List Value} {q : PlacedLoop} {outcome : Bool}

theorem Keeps.getElem?_eq {thread : Option ThreadId} {call : Nat} {slots : Array Value}
    (h : a.Keeps slot v ⟨thread, call, operands, ⟨a.routine, slots, pc⟩ :: a.callers⟩) :
    slots[slot]? = some v := by
  cases hw : slots[slot]? with
  | some w => rw [h.unique (.of_at rfl hw)]
  | none =>
    obtain ⟨fs, slots', pc', hframes, hv⟩ := h
    have hlength : (⟨a.routine, slots, pc⟩ :: a.callers).length =
        (fs ++ ⟨a.routine, slots', pc'⟩ :: a.callers).length := congrArg List.length hframes
    simp at hlength
    subst hlength
    cases hframes
    rw [hv] at hw
    cases hw

/-- A step to the next instruction is a passage through the one. -/
theorem passes_of_takes {s : Shared} (h : x.Takes s y) (hs : s.routines = routines)
    (hx : a.At pc x) (hy : a.At (pc + 1) y) : a.Passes routines pc (pc + 1) x [⟨s, x⟩] y :=
  ⟨(leaves_nil hy).step hx (Nat.le_refl _) (Nat.lt_succ_self _) hs h, hx⟩

theorem exists_passes_push {s : Shared} (hi : a.routine.get? pc = some (.push v)) (hat : a.At pc x)
    (hs : s.routines = routines) (hrun : s.isHalted = false) :
    ∃ y, a.Passes routines pc (pc + 1) x [⟨s, x⟩] y ∧ y.operands = v :: x.operands := by
  obtain ⟨thread, call, operands, frames⟩ := x
  obtain ⟨slots, rfl⟩ := hat
  exact ⟨_, passes_of_takes ((Execution.takes_push_iff hi).mpr ⟨hrun, rfl⟩) hs ⟨slots, rfl⟩
    ⟨slots, rfl⟩, rfl⟩

theorem exists_passes_store {s : Shared} (hi : a.routine.get? pc = some (.store slot))
    (hat : a.At pc x) (hoperands : x.operands = v :: operands) (hs : s.routines = routines)
    (hrun : s.isHalted = false) (hroom : s.Room slot) :
    ∃ y, a.Passes routines pc (pc + 1) x [⟨s, x⟩] y := by
  obtain ⟨thread, call, operands', frames⟩ := x
  obtain ⟨slots, rfl⟩ := hat
  obtain rfl : operands' = v :: operands := hoperands
  exact ⟨_, passes_of_takes (Execution.takes_store hi hrun hroom) hs ⟨slots, rfl⟩
    ⟨storeSlot slots slot v, rfl⟩⟩

/-- A passage through one instruction ends with what the instruction makes of the execution. -/
theorem Passes.eq_of_takes {z : Execution} (h : a.Passes routines pc (pc + 1) x points y)
    (hz : a.At (pc + 1) z) (hnext : ∀ s y, x.Takes s y → y = z) : y = z := by
  obtain ⟨s, x', rest, rfl, -, htakes, hrest⟩ :=
    h.exists_step h.starts (Nat.ne_of_lt pc.lt_succ_self)
  obtain rfl := hnext s x' htakes
  exact (hrest.eq_of_at hz).2.symm

theorem Jumps.keeps {target : Nat} {p : Point} (h : a.Jumps routines pc target x p y)
    (hx : a.Keeps slot v x) : a.Keeps slot v y := by
  cases h with
  | intro => exact .of_at rfl hx.getElem?_eq

theorem Evaluates.right {low high : Nat} {front back : List Point}
    (h : a.Evaluates routines low high v (front ++ back)) :
    a.Evaluates routines low high v back := fun front' mid back' s x y hback =>
  h (front ++ front') mid back' s x y (by rw [hback, List.append_assoc])

/-- What an expression leaves, as the instruction behind it finds it. -/
theorem Evaluates.operands_eq {low high : Nat} {front mid rest back : List Point} {z : Execution}
    (h : a.Evaluates routines low high v (front ++ (mid ++ (rest ++ back))))
    (hmid : a.Passes routines low high x mid y) (hrest : a.Passes routines pc (pc + 1) y rest z) :
    y.operands = v :: x.operands := by
  obtain ⟨s, _, rest, rfl, -⟩ := hrest.exists_step hrest.starts (Nat.ne_of_lt pc.lt_succ_self)
  exact h front mid (rest ++ back) s x y rfl hmid

theorem Passes.load (h : a.Passes routines pc (pc + 1) x points y)
    (hi : a.routine.get? pc = some (.load slot)) (hx : a.Keeps slot v x) :
    y.operands = v :: x.operands ∧ a.Keeps slot v y := by
  have hstarts := h.starts
  obtain ⟨thread, call, operands, frames⟩ := x
  obtain ⟨slots, rfl⟩ := hstarts
  have hv := hx.getElem?_eq
  obtain rfl := h.eq_of_takes ⟨slots, rfl⟩ fun s y hy =>
    ((Execution.takes_load_iff hi hv).mp hy).2
  exact ⟨rfl, .of_at rfl hv⟩

theorem Passes.compare {j : Int64} (h : a.Passes routines pc (pc + 1) x points y)
    (hi : a.routine.get? pc = some (.plain (.binary .cmple)))
    (hoperands : x.operands = .int j :: .int i :: operands) (hx : a.Keeps slot v x) :
    y.operands = .bool (decide (i ≤ j)) :: operands ∧ a.Keeps slot v y := by
  have hstarts := h.starts
  obtain ⟨thread, call, operands', frames⟩ := x
  obtain ⟨slots, rfl⟩ := hstarts
  obtain rfl : operands' = .int j :: .int i :: operands := hoperands
  obtain rfl := h.eq_of_takes ⟨slots, rfl⟩ fun s y hy => ((Execution.takes_cmple_iff hi).mp hy).2
  exact ⟨rfl, .of_at rfl hx.getElem?_eq⟩

theorem Passes.store (h : a.Passes routines pc (pc + 1) x points y)
    (hi : a.routine.get? pc = some (.store slot)) (hoperands : x.operands = v :: operands) :
    a.Keeps slot v y := by
  have hstarts := h.starts
  obtain ⟨thread, call, operands', frames⟩ := x
  obtain ⟨slots, rfl⟩ := hstarts
  obtain rfl : operands' = v :: operands := hoperands
  obtain rfl := h.eq_of_takes ⟨_, rfl⟩ fun s y hy => hy.eq_of_store hi
  exact .of_at rfl (getElem?_storeSlot_self _ _ _)

/-- **Counting** adds one to the variable. -/
theorem Passes.counting {name : String} (h : a.Passes routines pc (pc + 4) x points y)
    (hcode : a.routine.Holds pc (countingCode name slot)) (hx : a.Keeps slot (.int i) x) :
    a.Keeps slot (.int (i + 1)) y := by
  simp only [countingCode, holds_cons, holds_nil, and_true] at hcode
  obtain ⟨hload, hpush, hadd, hstore⟩ := hcode
  have hstarts := h.starts
  obtain ⟨thread, call, operands, frames⟩ := x
  obtain ⟨slots, rfl⟩ := hstarts
  obtain ⟨_, _, _, rfl, -, htakes, h⟩ := h.exists_step ⟨_, rfl⟩ (by omega)
  obtain ⟨-, rfl⟩ := (Execution.takes_load_iff hload hx.getElem?_eq).mp htakes
  obtain ⟨_, _, _, rfl, -, htakes, h⟩ := h.exists_step ⟨_, rfl⟩ (by omega)
  obtain ⟨-, rfl⟩ := (Execution.takes_push_iff hpush).mp htakes
  obtain ⟨_, _, _, rfl, -, htakes, h⟩ := h.exists_step ⟨_, rfl⟩ (by omega)
  obtain ⟨-, rfl⟩ := (Execution.takes_add_iff hadd).mp htakes
  obtain ⟨_, _, _, rfl, -, htakes, h⟩ := h.exists_step ⟨_, rfl⟩ (by omega)
  obtain rfl := htakes.eq_of_store hstore
  obtain ⟨-, rfl⟩ := h.eq_of_at ⟨_, rfl⟩
  exact .of_at rfl (getElem?_storeSlot_self _ _ _)

end

end Activation

/-! ## What a loop does -/

namespace PlacedLoop.Stands

open Activation

variable {table : RecordTable} {a : Activation} {routines : List Routine} {q : PlacedLoop}
  {scope inner : Scope} {name : String} {first last : Expr} {body : List Stmt}
  {x y : Execution} {points : List Point} {i lower upper : Int64} {is : List Int64}

theorem closedIn_first {r : Routine} (h : q.Stands table r scope inner name first last body) :
    r.ClosedIn q.start q.store ∧ q.start ≤ q.store := by
  obtain ⟨code, hcode, hat, hstore⟩ := h.first
  have hallows := (code_of_lowerExpr hcode (Expr.obeys_free _)).allows
  exact ⟨(jumpsWithin_of_allows hallows).closedIn hat hstore, by omega⟩

theorem closedIn_last {r : Routine} (h : q.Stands table r scope inner name first last body) :
    r.ClosedIn (q.store + 2) q.compare ∧ q.store + 2 ≤ q.compare := by
  obtain ⟨code, hcode, hat, hcompare⟩ := h.last
  have hallows := (code_of_lowerExpr hcode (Expr.obeys_free _)).allows
  exact ⟨(jumpsWithin_of_allows hallows).closedIn hat hcompare, by omega⟩

/-- The body stands in a block in which the variable can be seen. -/
theorem code_body {r : Routine} (h : q.Stands table r scope inner name first last body) :
    ∃ code, Clause.Code .free table (q.compare + 2) (scope.extend name).enter (.stmts body) code
      inner (stmtsMarks table (q.compare + 2) (scope.extend name).enter body) ∧
      r.Holds (q.compare + 2) code ∧ q.count = q.compare + 2 + code.length := by
  obtain ⟨code, hcode, hat, hcount⟩ := h.body
  have hnested := h.nested.extends (Scope.extends_extend _ name)
  exact ⟨code, code_of_lowerStmts hcode (Stmt.allObey_free _) hnested.enter, hat, hcount⟩

theorem closedIn_body {r : Routine} (h : q.Stands table r scope inner name first last body) :
    r.ClosedIn (q.compare + 2) q.count ∧ q.compare + 2 ≤ q.count := by
  obtain ⟨code, hcode, hat, hcount⟩ := h.code_body
  exact ⟨(hcount ▸ hcode.jumpsWithin).closedIn hat hcount, by omega⟩

theorem closedIn_count {r : Routine} (h : q.Stands table r scope inner name first last body) :
    r.ClosedIn q.count (q.count + 4) :=
  (jumpsWithin_countingCode _ _ _ _).closedIn h.count rfl

/-- The bound is computed without a `STORE`. -/
theorem sparesIn_last (h : q.Stands table a.routine scope inner name first last body) :
    a.SparesIn q.slot (q.store + 2) q.compare := by
  obtain ⟨code, hcode, hat, hcompare⟩ := h.last
  exact sparesIn_of_notStores (code_of_lowerExpr hcode (Expr.obeys_free _)).notStores hat hcompare

/-- A body that does not assign the variable does not store to its slot. -/
theorem sparesIn_body (h : q.Stands table a.routine scope inner name first last body)
    (hbody : Stmt.anyAssigns name body = false) : a.SparesIn q.slot (q.compare + 2) q.count := by
  obtain ⟨code, hcode, hat, hcount⟩ := h.code_body
  refine sparesIn_of_notStores (hcode.notStores ?_ fun other hother => ?_) hat hcount
  · rw [h.slot]
    exact Nat.lt_succ_self _
  · -- No older variable has the slot.
    rw [h.slot, Scope.resolve?, Option.map_eq_some_iff] at hother
    obtain ⟨l, hl, hslot⟩ := hother
    rcases List.mem_cons.mp (List.mem_of_find?_eq_some hl) with rfl | hmem
    · have hname := List.find?_some (p := fun l : Local => l.name == other) hl
      obtain rfl := beq_iff_eq.mp hname
      exact hbody
    · exact absurd hslot (Nat.ne_of_lt (h.ordered.lt l hmem))

/-! ### One round -/

/-- **One comparison**: it decides whether the variable has passed the bound. -/
theorem eq_decide_of_tests (h : q.Stands table a.routine scope inner name first last body)
    {outcome : Bool} (htests : a.Tests routines q upper outcome x points y)
    (hx : a.Keeps q.slot (.int i) x) :
    outcome = decide (i ≤ upper) ∧ a.Keeps q.slot (.int i) y := by
  cases htests with
  | intro hload hlast hupper hcompare hdecides =>
    obtain ⟨hoperands, hx₁⟩ := hload.load h.load hx
    have hx₂ := (hlast.toLeaves.keeps h.sparesIn_last hx₁).2
    rw [hoperands] at hupper
    obtain ⟨hoperands, hx₃⟩ := hcompare.compare h.compare hupper hx₂
    cases hdecides with
    | intro =>
      cases hoperands
      exact ⟨rfl, .of_at rfl hx₃.getElem?_eq⟩

theorem ends_of_tests {outcome : Bool} (htests : a.Tests routines q upper outcome x points y) :
    a.At (if outcome then q.compare + 2 else q.count + 5) y := by
  cases htests with
  | intro _ _ _ _ hdecides => exact hdecides.ends

/-- A round whose bound is evaluated to a value compares the variable with it. -/
theorem exists_tests (h : q.Stands table a.routine scope inner name first last body) {low : Nat}
    (hlow : low ≤ q.store + 1) (hat : a.At (q.store + 1) x)
    (hleaves : a.Leaves routines low (q.count + 5) x points y)
    (hlast : a.Evaluates routines (q.store + 2) q.compare (.int upper) points) :
    ∃ outcome front back z, points = front ++ back ∧ a.Tests routines q upper outcome x front z ∧
      a.Leaves routines low (q.count + 5) z back y := by
  obtain ⟨hclast, hllast⟩ := h.closedIn_last
  obtain ⟨hcbody, hlbody⟩ := h.closedIn_body
  obtain ⟨points, back, x₁, rfl, hload, hback⟩ := hleaves.exists_passes hat
    (Routine.closedIn_succ h.load rfl) (Nat.le_succ _) (by omega)
  obtain ⟨points₁, back, x₂, rfl, hbound, hback⟩ := hback.exists_passes hload.ends
    hclast hllast (by omega)
  obtain ⟨points₂, back, x₃, rfl, hcompare, hback⟩ := hback.exists_passes hbound.ends
    (Routine.closedIn_succ h.compare rfl) (Nat.le_succ _) (by omega)
  obtain ⟨outcome, p, z, back, rfl, hdecides, hback⟩ :=
    (leaves_jmpf_iff h.jump hcompare.ends (by omega) (by omega)).mp hback
  have hupper := hlast.operands_eq hbound hcompare
  refine ⟨outcome, _, back, z, ?_, .intro hload hbound hupper hcompare hdecides, hback⟩
  simp only [List.append_assoc, List.cons_append, List.nil_append]

/-- **What the rounds are**: they end with the first comparison that fails. -/
theorem exists_rounds (h : q.Stands table a.routine scope inner name first last body)
    (hbody : Stmt.anyAssigns name body = false) {low : Nat} (hlow : low ≤ q.store + 1)
    (hat : a.At (q.store + 1) x) (hx : a.Keeps q.slot (.int i) x)
    (hleaves : a.Leaves routines low (q.count + 5) x points y)
    (hlast : a.Evaluates routines (q.store + 2) q.compare (.int upper) points) :
    ∃ is, a.RunsRounds routines q upper is x points y := by
  obtain ⟨hclast, hllast⟩ := h.closedIn_last
  obtain ⟨hcbody, hlbody⟩ := h.closedIn_body
  -- Every round takes steps, so the induction is on the number of points.
  generalize hn : points.length = n
  induction n using Nat.strongRecOn generalizing x points i with
  | ind n ih =>
    obtain ⟨outcome, front, back, z, rfl, htests, hback⟩ := h.exists_tests hlow hat hleaves hlast
    obtain ⟨-, hz⟩ := h.eq_decide_of_tests htests hx
    have hends := ends_of_tests htests
    cases outcome with
    | false =>
      obtain ⟨rfl, rfl⟩ := hback.eq_of_at hends
      exact ⟨[], .nil ((List.append_nil front).symm ▸ htests)⟩
    | true =>
      obtain ⟨points₁, back, x₂, rfl, hruns, hback⟩ :=
        hback.exists_passes hends hcbody hlbody (by omega)
      obtain ⟨hvalues, hx₂⟩ := hruns.toLeaves.keeps (h.sparesIn_body hbody) hz
      obtain ⟨points₂, back, x₃, rfl, hcount, hback⟩ := hback.exists_passes hruns.ends
        h.closedIn_count (Nat.le_add_right _ _) (by omega)
      obtain ⟨p, x₄, back, rfl, hjumps, hback⟩ :=
        (leaves_jmp_iff h.back hcount.ends (by omega) (by omega)).mp hback
      have hx₄ := hjumps.keeps (hcount.counting h.count hx₂)
      have hlast : a.Evaluates routines _ _ _ ([p] ++ back) := hlast.right.right.right
      obtain ⟨is, his⟩ :=
        ih back.length (by simp at hn; omega) hjumps.ends hx₄ hback hlast.right rfl
      exact ⟨i :: is, .cons htests hruns ⟨hz, hvalues⟩ hcount hjumps his⟩

/-- **Which rounds there are**: if the bound is not the largest integer, the body is executed for
the integers from the first value to the bound. -/
theorem toInt_rounds (h : q.Stands table a.routine scope inner name first last body)
    (hbody : Stmt.anyAssigns name body = false)
    (hrounds : a.RunsRounds routines q upper is x points y) (hx : a.Keeps q.slot (.int i) x)
    (hupper : upper ≠ Int64.maxValue) :
    is.map Int64.toInt = integers i.toInt upper.toInt := by
  induction hrounds generalizing i with
  | nil htests =>
    have hlt := of_decide_eq_false (h.eq_decide_of_tests htests hx).1.symm
    rw [Int64.le_iff_toInt_le] at hlt
    rw [integers_of_lt (Int.lt_of_not_ge hlt)]
    rfl
  | cons htests hruns hvalue hcount hjumps hrest ih =>
    obtain ⟨hle, hz⟩ := h.eq_decide_of_tests htests hx
    have hle := of_decide_eq_true hle.symm
    cases hvalue.1.unique hz
    have hx₂ := (hruns.toLeaves.keeps (h.sparesIn_body hbody) hz).2
    rw [List.map_cons, ih (hjumps.keeps (hcount.counting h.count hx₂)),
      toInt_add_one hle hupper, integers_of_le (Int64.le_iff_toInt_le.mp hle)]

/-- **With the largest integer as the bound** no comparison fails. -/
theorem not_rounds_through_max (h : q.Stands table a.routine scope inner name first last body)
    (hbody : Stmt.anyAssigns name body = false) (hx : a.Keeps q.slot (.int i) x) :
    ¬ a.RunsRounds routines q Int64.maxValue is x points y := by
  intro hrounds
  generalize hupper : Int64.maxValue = upper at hrounds
  induction hrounds generalizing i with
  | nil htests =>
    have hlt := of_decide_eq_false (h.eq_decide_of_tests htests hx).1.symm
    rw [Int64.le_iff_toInt_le, ← hupper] at hlt
    exact hlt i.toInt_le
  | cons htests hruns hvalue hcount hjumps hrest ih =>
    obtain ⟨-, hz⟩ := h.eq_decide_of_tests htests hx
    have hx₂ := (hruns.toLeaves.keeps (h.sparesIn_body hbody) hz).2
    exact ih (hjumps.keeps (hcount.counting h.count hx₂))

theorem leaves_of_tests (h : q.Stands table a.routine scope inner name first last body)
    {outcome : Bool} {z : Execution} {points' : List Point} {low : Nat} (hlow : low ≤ q.store + 1)
    (htests : a.Tests routines q upper outcome x points y)
    (hleaves : a.Leaves routines low (q.count + 5) y points' z) :
    a.Leaves routines low (q.count + 5) x (points ++ points') z := by
  obtain ⟨-, hllast⟩ := h.closedIn_last
  obtain ⟨-, hlbody⟩ := h.closedIn_body
  cases htests with
  | intro hload hlast _ hcompare hdecides =>
    have hback : a.Leaves routines low (q.count + 5) _ _ z :=
      (leaves_jmpf_iff h.jump hdecides.starts (by omega) (by omega)).mpr
        ⟨_, _, _, _, rfl, hdecides, hleaves⟩
    have hback := hcompare.append hback (by omega) (by omega)
    have hback := hlast.append hback (by omega) (by omega)
    have hback := hload.append hback (by omega) (by omega)
    simpa only [List.append_assoc, List.cons_append, List.nil_append] using hback

theorem leaves_of_rounds (h : q.Stands table a.routine scope inner name first last body)
    {low : Nat} (hlow : low ≤ q.store + 1)
    (hrounds : a.RunsRounds routines q upper is x points y) :
    a.Leaves routines low (q.count + 5) x points y := by
  obtain ⟨-, hllast⟩ := h.closedIn_last
  obtain ⟨-, hlbody⟩ := h.closedIn_body
  induction hrounds with
  | nil htests =>
    have hleaves := h.leaves_of_tests hlow htests (leaves_nil (ends_of_tests htests))
    rwa [List.append_nil] at hleaves
  | cons htests hruns _ hcount hjumps _ ih =>
    have hback : a.Leaves routines low (q.count + 5) _ _ _ :=
      (leaves_jmp_iff h.back hjumps.starts (by omega) (by omega)).mpr ⟨_, _, _, rfl, hjumps, ih⟩
    have hback := hcount.append hback (by omega) (by omega)
    have hback := hruns.append hback (by omega) (by omega)
    exact h.leaves_of_tests hlow htests hback

/-! ### The whole loop -/

/-- The variable begins with the value of the start. -/
theorem keeps_first {x₁ x₂ : Execution} {points₁ : List Point}
    (h : q.Stands table a.routine scope inner name first last body)
    (hlower : x₁.operands = .int lower :: x.operands)
    (hstore : a.Passes routines q.store (q.store + 1) x₁ points₁ x₂) :
    a.Keeps q.slot (.int lower) x₂ :=
  hstore.store h.store hlower

theorem exists_loop (h : q.Stands table a.routine scope inner name first last body)
    (hbody : Stmt.anyAssigns name body = false)
    (hpasses : a.Passes routines q.start (q.count + 5) x points y)
    (hfirst : a.Evaluates routines q.start q.store (.int lower) points)
    (hlast : a.Evaluates routines (q.store + 2) q.compare (.int upper) points) :
    ∃ is, a.RunsLoop routines q lower upper is x points y := by
  obtain ⟨hcfirst, hlfirst⟩ := h.closedIn_first
  obtain ⟨-, hllast⟩ := h.closedIn_last
  obtain ⟨-, hlbody⟩ := h.closedIn_body
  obtain ⟨points, back, x₁, rfl, hinit, hback⟩ :=
    hpasses.toLeaves.exists_passes hpasses.starts hcfirst hlfirst (by omega)
  obtain ⟨points₁, back, x₂, rfl, hstore, hback⟩ := hback.exists_passes hinit.ends
    (Routine.closedIn_succ h.store rfl) (Nat.le_succ _) (by omega)
  rw [← List.nil_append (points ++ _)] at hfirst
  have hlower := hfirst.operands_eq hinit hstore
  obtain ⟨is, hrounds⟩ := h.exists_rounds hbody (by omega) hstore.ends (h.keeps_first hlower hstore)
    hback hlast.right.right
  exact ⟨is, .intro hinit hlower hstore hrounds⟩

theorem passes_of_loop (h : q.Stands table a.routine scope inner name first last body)
    (hloop : a.RunsLoop routines q lower upper is x points y) :
    a.Passes routines q.start (q.count + 5) x points y := by
  obtain ⟨-, hlfirst⟩ := h.closedIn_first
  obtain ⟨-, hllast⟩ := h.closedIn_last
  obtain ⟨-, hlbody⟩ := h.closedIn_body
  cases hloop with
  | intro hfirst _ hstore hrounds =>
    have hback := h.leaves_of_rounds (Nat.le_succ_of_le hlfirst) hrounds
    have hback := hstore.append hback (by omega) (by omega)
    exact ⟨hfirst.append hback (by omega) (by omega), hfirst.starts⟩

/-! ### A loop whose parts come to their ends -/

section

variable {Can : List Point → Prop} {z : Execution} {front past : List Point} {pc low high : Nat}

theorem comes_append (hcomes : a.Comes routines q Can x past y)
    (hcan : Can (past ++ front)) (hleaves : a.Leaves routines low high y front z)
    (hlow : q.start ≤ low) (hhigh : high ≤ q.count + 5) :
    a.Comes routines q Can x (past ++ front) z where
  can := hcan
  path := hcomes.path.append hleaves.path
  within := List.forall_mem_append.mpr
    ⟨hcomes.within, fun p hp => (hleaves.within p hp).mono hlow hhigh⟩

/-- An instruction of the loop itself is performed. -/
theorem exists_step (h : q.Stands table a.routine scope inner name first last body)
    (hc : a.Completes routines q lower upper Can x) (hcomes : a.Comes routines q Can x past y)
    (hat : a.At pc y) (hown : q.Own pc) :
    ∃ s, s.routines = routines ∧ s.isHalted = false ∧ s.Room q.slot ∧
      ∀ z, y.Takes s z → a.Comes routines q Can x (past ++ [⟨s, y⟩]) z := by
  obtain ⟨-, hlfirst⟩ := h.closedIn_first
  obtain ⟨-, hllast⟩ := h.closedIn_last
  obtain ⟨-, hlbody⟩ := h.closedIn_body
  obtain ⟨s, hcan, hs, hrun, hroom⟩ := hc.own past y pc hcomes hat hown
  refine ⟨s, hs, hrun, hroom, fun z hz => ⟨hcan, hcomes.path.append (.step hs hz (.refl z)),
    List.forall_mem_append.mpr ⟨hcomes.within, List.forall_mem_singleton.mpr (.here hat ?_ ?_)⟩⟩⟩
  all_goals
    rw [Own] at hown
    omega

/-- An instruction of the loop itself that leads to the next one. -/
theorem exists_passes (h : q.Stands table a.routine scope inner name first last body)
    (hc : a.Completes routines q lower upper Can x) (hcomes : a.Comes routines q Can x past y)
    (hat : a.At pc y) (hown : q.Own pc) (hz : a.At (pc + 1) z)
    (htakes : ∀ s, s.isHalted = false → s.Room q.slot → y.Takes s z) :
    ∃ p, a.Passes routines pc (pc + 1) y [p] z ∧ a.Comes routines q Can x (past ++ [p]) z := by
  obtain ⟨s, hs, hrun, hroom, hnext⟩ := h.exists_step hc hcomes hat hown
  have hz' := htakes s hrun hroom
  exact ⟨⟨s, y⟩, passes_of_takes hz' hs hat hz, hnext z hz'⟩

/-- The comparison of a round comes to its end. -/
theorem completes_tests (h : q.Stands table a.routine scope inner name first last body)
    (hc : a.Completes routines q lower upper Can x) (hcomes : a.Comes routines q Can x past y)
    (hat : a.At (q.store + 1) y) (hy : a.Keeps q.slot (.int i) y) :
    ∃ front z, a.Tests routines q upper (decide (i ≤ upper)) y front z ∧
      a.Comes routines q Can x (past ++ front) z := by
  obtain ⟨-, hlfirst⟩ := h.closedIn_first
  obtain ⟨-, hlbody⟩ := h.closedIn_body
  -- The variable is loaded.
  obtain ⟨thread, call, operands, frames⟩ := y
  obtain ⟨slots, rfl⟩ := hat
  obtain ⟨p, hload, hcomes⟩ := h.exists_passes hc hcomes ⟨slots, rfl⟩ (.inr (.inl rfl))
    ⟨slots, rfl⟩ fun s hrun _ =>
      (Execution.takes_load_iff h.load hy.getElem?_eq).mpr ⟨hrun, rfl⟩
  -- The bound is evaluated.
  obtain ⟨points₁, x₂, hcan, hlast, hupper⟩ := hc.last _ _ hcomes hload.ends
  have hcomes := comes_append hcomes hcan hlast.toLeaves (by omega) (by omega)
  have hends := hlast.ends
  obtain ⟨thread', call', operands', frames'⟩ := x₂
  obtain ⟨slots', rfl⟩ := hends
  obtain rfl : operands' = .int upper :: .int i :: operands := hupper
  -- They are compared.
  obtain ⟨p', hcompare, hcomes⟩ := h.exists_passes hc hcomes ⟨slots', rfl⟩
    (.inr (.inr (.inl rfl))) ⟨slots', rfl⟩ fun s hrun _ =>
      (Execution.takes_cmple_iff h.compare).mpr ⟨hrun, rfl⟩
  obtain ⟨s, hs, hrun, -, hnext⟩ := h.exists_step hc hcomes ⟨slots', rfl⟩
    (.inr (.inr (.inr (.inl rfl))))
  obtain ⟨z, hdecides⟩ : ∃ z, a.Decides routines (q.compare + 1) (q.count + 5) _ _ _ z :=
    exists_decides hcompare.ends rfl hs hrun
  have htests := Activation.Tests.intro hload hlast rfl hcompare hdecides
  refine ⟨_, _, htests, ?_⟩
  have hcomes := hnext z ((takes_jmpf_iff h.jump hcompare.ends hs).mpr ⟨_, hdecides⟩)
  simpa only [List.append_assoc] using hcomes

/-- The end of a round comes to its end. -/
theorem completes_counting (h : q.Stands table a.routine scope inner name first last body)
    (hc : a.Completes routines q lower upper Can x) (hcomes : a.Comes routines q Can x past y)
    (hat : a.At q.count y) (hy : a.Keeps q.slot (.int i) y) :
    ∃ front z, a.Passes routines q.count (q.count + 4) y front z ∧
      a.Comes routines q Can x (past ++ front) z := by
  have hcode := h.count
  simp only [countingCode, holds_cons, holds_nil, and_true] at hcode
  obtain ⟨hload, hpush, hadd, hstore⟩ := hcode
  have hown : ∀ {pc}, q.count ≤ pc → pc < q.count + 5 → q.Own pc := fun hle hlt =>
    .inr (.inr (.inr (.inr ⟨hle, hlt⟩)))
  obtain ⟨thread, call, operands, frames⟩ := y
  obtain ⟨slots, rfl⟩ := hat
  obtain ⟨p₁, h₁, hcomes⟩ := h.exists_passes hc hcomes ⟨slots, rfl⟩ (hown (by omega) (by omega))
    ⟨slots, rfl⟩ fun s hrun _ => (Execution.takes_load_iff hload hy.getElem?_eq).mpr ⟨hrun, rfl⟩
  obtain ⟨p₂, h₂, hcomes⟩ := h.exists_passes hc hcomes ⟨slots, rfl⟩ (hown (by omega) (by omega))
    ⟨slots, rfl⟩ fun s hrun _ => (Execution.takes_push_iff hpush).mpr ⟨hrun, rfl⟩
  obtain ⟨p₃, h₃, hcomes⟩ := h.exists_passes hc hcomes ⟨slots, rfl⟩ (hown (by omega) (by omega))
    ⟨slots, rfl⟩ fun s hrun _ => (Execution.takes_add_iff hadd).mpr ⟨hrun, rfl⟩
  obtain ⟨p₄, h₄, hcomes⟩ := h.exists_passes hc hcomes ⟨slots, rfl⟩ (hown (by omega) (by omega))
    ⟨storeSlot slots q.slot (.int (i + 1)), rfl⟩ fun s hrun hroom =>
      Execution.takes_store hstore hrun hroom
  have hleaves : a.Leaves routines q.count (q.count + 4) _ _ _ := h₄.toLeaves.mono (by omega)
  have hleaves := h₃.append hleaves (by omega) (by omega)
  have hleaves := h₂.append hleaves (by omega) (by omega)
  have hleaves := h₁.append hleaves (by omega) (by omega)
  refine ⟨_, _, ⟨hleaves, ⟨slots, rfl⟩⟩, ?_⟩
  simpa only [List.append_assoc] using hcomes

/-- **All rounds** come to their ends. -/
theorem completes_rounds (h : q.Stands table a.routine scope inner name first last body)
    (hbody : Stmt.anyAssigns name body = false)
    (hc : a.Completes routines q lower upper Can x) (hcomes : a.Comes routines q Can x past y)
    (hat : a.At (q.store + 1) y) (hy : a.Keeps q.slot (.int i) y)
    (hupper : upper ≠ Int64.maxValue) :
    ∃ is front z, a.RunsRounds routines q upper is y front z ∧ Can (past ++ front) := by
  obtain ⟨-, hlfirst⟩ := h.closedIn_first
  obtain ⟨-, hllast⟩ := h.closedIn_last
  -- With every round the variable comes nearer to the bound.
  generalize hn : (upper.toInt - i.toInt + 1).toNat = n
  induction n using Nat.strongRecOn generalizing past y i with
  | ind n ih =>
    obtain ⟨front, z, htests, hcomes⟩ := h.completes_tests hc hcomes hat hy
    by_cases hle : i ≤ upper
    · rw [decide_eq_true hle] at htests
      have hz := (h.eq_decide_of_tests htests hy).2
      obtain ⟨points₁, x₂, hcan, hruns⟩ := hc.body _ _ hcomes (ends_of_tests htests)
      have hcomes := comes_append hcomes hcan hruns.toLeaves (by omega) (by omega)
      obtain ⟨hvalues, hx₂⟩ := hruns.toLeaves.keeps (h.sparesIn_body hbody) hz
      obtain ⟨points₂, x₃, hcount, hcomes⟩ := h.completes_counting hc hcomes hruns.ends hx₂
      obtain ⟨s, hs, hrun, -, hnext⟩ := h.exists_step hc hcomes hcount.ends
        (.inr (.inr (.inr (.inr ⟨by omega, by omega⟩))))
      obtain ⟨x₄, hjumps⟩ : ∃ x₄, a.Jumps routines (q.count + 4) (q.store + 1) x₃ _ x₄ :=
        exists_jumps hcount.ends hs hrun
      have hcomes := hnext _ ((takes_jmp_iff h.back hcount.ends hs).mpr hjumps)
      have hnext := toInt_add_one hle hupper
      have hle' := Int64.le_iff_toInt_le.mp hle
      obtain ⟨is, back, z', hrounds, hcan⟩ := ih _ (by omega) hcomes hjumps.ends
        (hjumps.keeps (hcount.counting h.count hx₂)) rfl
      refine ⟨i :: is, _, z', .cons htests hruns ⟨hz, hvalues⟩ hcount hjumps hrounds, ?_⟩
      simpa only [List.append_assoc, List.cons_append, List.nil_append] using hcan
    · rw [decide_eq_false hle] at htests
      exact ⟨[], front, z, .nil htests, hcomes.can⟩

theorem completes_loop (h : q.Stands table a.routine scope inner name first last body)
    (hbody : Stmt.anyAssigns name body = false)
    (hc : a.Completes routines q lower upper Can x) (hupper : upper ≠ Int64.maxValue) :
    ∃ is points y, a.RunsLoop routines q lower upper is x points y ∧ Can points := by
  obtain ⟨-, hllast⟩ := h.closedIn_last
  obtain ⟨-, hlbody⟩ := h.closedIn_body
  obtain ⟨points, x₁, hcan, hfirst, hlower⟩ := hc.first
  have hcomes : a.Comes routines q Can x points x₁ :=
    ⟨hcan, hfirst.path, fun p hp => (hfirst.within p hp).mono (Nat.le_refl _) (by omega)⟩
  obtain ⟨p, x₂, hstore, hcomes⟩ : ∃ p x₂, a.Passes routines q.store (q.store + 1) x₁ [p] x₂ ∧
      a.Comes routines q Can x (points ++ [p]) x₂ := by
    have hends := hfirst.ends
    obtain ⟨thread, call, operands, frames⟩ := x₁
    obtain ⟨slots, rfl⟩ := hends
    obtain rfl : operands = .int lower :: x.operands := hlower
    obtain ⟨p, hstore, hcomes⟩ := h.exists_passes hc hcomes ⟨slots, rfl⟩ (.inl rfl)
      ⟨storeSlot slots q.slot (.int lower), rfl⟩ fun s hrun hroom =>
        Execution.takes_store h.store hrun hroom
    exact ⟨p, _, hstore, hcomes⟩
  obtain ⟨is, back, y, hrounds, hcan⟩ := h.completes_rounds hbody hc hcomes hstore.ends
    (h.keeps_first hlower hstore) hupper
  refine ⟨is, _, y, .intro hfirst hlower hstore hrounds, ?_⟩
  rwa [← List.append_assoc]

end

end PlacedLoop.Stands

/-! ## Loops as they are compiled -/

/-- What there is to say of a loop from one integer to another. -/
structure Activation.GoesThrough (a : Activation) (routines : List Routine) (q : PlacedLoop)
    (lower upper : Int64) : Prop where
  /-- Whoever goes through its code, with these values of the start and of the bound, runs the loop
  with some values of the variable. -/
  runs : ∀ x points y, a.Passes routines q.start (q.count + 5) x points y →
    a.Evaluates routines q.start q.store (.int lower) points →
    a.Evaluates routines (q.store + 2) q.compare (.int upper) points →
    ∃ is, a.RunsLoop routines q lower upper is x points y
  /-- Whoever runs the loop goes through its code, and does so with the values from one integer to
  the other. -/
  passes : ∀ is x points y, a.RunsLoop routines q lower upper is x points y →
    a.Passes routines q.start (q.count + 5) x points y ∧
      is.map Int64.toInt = integers lower.toInt upper.toInt
  /-- If its parts come to their ends, so does the loop. -/
  completes : ∀ (Can : List Point → Prop) x, a.Completes routines q lower upper Can x →
    ∃ is points y, a.RunsLoop routines q lower upper is x points y ∧ Can points

/-- **What a counted loop does**, if its body does not assign the variable.  If the start has the
value `lower`, and the bound has the value `upper` in every round, the body is executed once for
every integer from `lower` to `upper`, in this order, and then the execution goes on behind the
loop.  If `upper` is the largest integer, no execution ever comes there. -/
theorem Stmt.passes_forLoop {table : RecordTable} {start : Nat} {scope scope' : Scope}
    {name : String} {first last : Expr} {body : List Stmt} {code : List Instr} {a : Activation}
    (h : lowerStmt table start scope (.forLoop name first last body) = .ok (code, scope'))
    (hs : scope.Nested) (ho : scope.Ordered) (hcode : a.routine.Holds start code)
    (hbody : Stmt.anyAssigns name body = false) (routines : List Routine) :
    ∃ (q : PlacedLoop) (inner : Scope),
      q.Stands table a.routine scope.enter inner name first last body ∧ q.start = start ∧
      q.count + 5 = start + code.length ∧
      ∀ lower upper : Int64,
        (upper ≠ Int64.maxValue → a.GoesThrough routines q lower upper) ∧
        (upper = Int64.maxValue → ∀ x points y,
          a.Passes routines start (start + code.length) x points y →
          a.Evaluates routines q.start q.store (.int lower) points →
          ¬ a.Evaluates routines (q.store + 2) q.compare (.int upper) points) := by
  obtain ⟨q, inner, hq, rfl, hstop⟩ := exists_stands_of_lowerStmt h hs ho hcode
  refine ⟨q, inner, hq, rfl, hstop, fun lower upper => ⟨fun hupper => ?_, ?_⟩⟩
  · refine ⟨fun x points y => hq.exists_loop hbody, fun is x points y hloop => ?_,
      fun Can x hc => hq.completes_loop hbody hc hupper⟩
    refine ⟨hq.passes_of_loop hloop, ?_⟩
    cases hloop with
    | intro _ hlower hstore hrounds =>
      exact hq.toInt_rounds hbody hrounds (hq.keeps_first hlower hstore) hupper
  · rintro rfl x points y hpasses hfirst hlast
    obtain ⟨is, hloop⟩ := hq.exists_loop hbody (hstop ▸ hpasses) hfirst hlast
    cases hloop with
    | intro _ hlower hstore hrounds =>
      exact hq.not_rounds_through_max hbody (hq.keeps_first hlower hstore) hrounds

/-- A loop from one to three whose body declares a variable. -/
def Stmt.threeRounds : Stmt :=
  .forLoop "i" (.literal ⟨.int, "1"⟩) (.literal ⟨.int, "3"⟩)
    [.declare "n" none (some (.literal ⟨.int, "7"⟩))]

/-- The routine that is the code of this loop and nothing else. -/
def threeRoundsRoutine : Routine :=
  ⟨"loop", match lowerStmt [] 0 {} Stmt.threeRounds with
    | .ok (code, _) => code.toArray
    | .error _ => #[]⟩

theorem Stmt.passes_forLoop_threeRounds : ∃ code scope',
    lowerStmt [] 0 {} threeRounds = .ok (code, scope') ∧ ({} : Scope).Nested ∧
      ({} : Scope).Ordered ∧ threeRoundsRoutine.Holds 0 code ∧
      Stmt.anyAssigns "i" [.declare "n" none (some (.literal ⟨.int, "7"⟩))] = false ∧
      ∃ q is points y, Activation.RunsLoop ⟨threeRoundsRoutine, []⟩ [] q 1 3 is
        ⟨none, 0, [], [⟨threeRoundsRoutine, #[], 0⟩]⟩ points y ∧
        is.map Int64.toInt = [1, 2, 3] := by
  have hs : ({} : Scope).Nested := fun l hl => by cases hl
  have ho : ({} : Scope).Ordered := ⟨.nil, fun l hl => by cases hl⟩
  have hcode : lowerStmt [] 0 {} threeRounds =
      .ok (threeRoundsRoutine.code.toList, { slotCount := 2 }) := by rfl
  have hholds : threeRoundsRoutine.Holds 0 threeRoundsRoutine.code.toList := holds_toList _
  obtain ⟨q, inner, hq, hstart, -, hloop⟩ :=
    passes_forLoop (a := ⟨threeRoundsRoutine, []⟩) hcode hs ho hholds rfl []
  have hloop := (hloop 1 3).1 (by decide)
  obtain ⟨first, hfirst, hcfirst, hstore⟩ := hq.first
  obtain ⟨last, hlast, hclast, hcompare⟩ := hq.last
  obtain ⟨body, hbody, hcbody, hcount⟩ := hq.body
  obtain rfl : [.push (.int 1)] = first := Except.ok.inj hfirst
  obtain rfl : [.push (.int 3)] = last := Except.ok.inj hlast
  obtain rfl : [.push (.int 7), .store 1] = body := congrArg Prod.fst (Except.ok.inj hbody)
  simp only [holds_cons, holds_nil, and_true] at hcfirst hclast hcbody
  -- One state of what is shared is enough for all steps.
  let s : Shared := (Machine.create {} {}).shared
  have hroom : ∀ slot, slot < 2 → s.Room slot := fun slot hslot =>
    ⟨Nat.lt_trans hslot (by decide), Nat.lt_trans hslot (by decide)⟩
  have hcan : ∀ {points points' : List Point}, (∀ p ∈ points, p.shared = s) →
      (∀ p ∈ points', p.shared = s) → ∀ p ∈ points ++ points', p.shared = s := fun h h' =>
    List.forall_mem_append.mpr ⟨h, h'⟩
  have hpush : ∀ {pc v x}, threeRoundsRoutine.get? pc = some (.push v) →
      Activation.At ⟨threeRoundsRoutine, []⟩ pc x → ∃ y,
        Activation.Passes ⟨threeRoundsRoutine, []⟩ [] pc (pc + 1) x [⟨s, x⟩] y ∧
          y.operands = v :: x.operands := fun hi hat => Activation.exists_passes_push hi hat rfl rfl
  have hstep : ∀ x, ∀ p ∈ [(⟨s, x⟩ : Point)], p.shared = s := fun x =>
    List.forall_mem_singleton.mpr rfl
  have hcompletes : Activation.Completes ⟨threeRoundsRoutine, []⟩ [] q 1 3
      (fun points => ∀ p ∈ points, p.shared = s)
      ⟨none, 0, [], [⟨threeRoundsRoutine, #[], 0⟩]⟩ := by
    refine ⟨?_, fun points y hcomes hat => ?_, fun points y hcomes hat => ?_,
      fun points y pc hcomes _ _ => ?_⟩
    · have hat : Activation.At ⟨threeRoundsRoutine, []⟩ q.start
          ⟨none, 0, [], [⟨threeRoundsRoutine, #[], 0⟩]⟩ := ⟨#[], by rw [hstart]⟩
      obtain ⟨z, hpasses, hz⟩ := hpush hcfirst hat
      exact ⟨_, z, hstep _, hstore ▸ hpasses, hz⟩
    · obtain ⟨z, hpasses, hz⟩ := hpush hclast hat
      exact ⟨_, z, hcan hcomes.can (hstep _), hcompare ▸ hpasses, hz⟩
    · obtain ⟨z, hpasses, hz⟩ := hpush hcbody.1 hat
      obtain ⟨z', hdeclare⟩ := Activation.exists_passes_store (s := s) hcbody.2 hpasses.ends hz
        rfl rfl (hroom 1 (by decide))
      have hleaves := hpasses.append (hdeclare.mono (Nat.le_succ _)) (Nat.le_refl _) (Nat.le_succ _)
      exact ⟨_, z', hcan hcomes.can (hcan (hstep _) (hstep _)), hcount ▸ hleaves, hat⟩
    · exact ⟨s, hcan hcomes.can (hstep _), rfl, rfl, hroom _ (by rw [hq.slot]; decide)⟩
  obtain ⟨is, points, y, hruns, -⟩ := hloop.completes _ _ hcompletes
  have his := (hloop.passes _ _ _ _ hruns).2
  exact ⟨_, _, hcode, hs, ho, hholds, rfl, q, is, points, y, hruns, his⟩

/-- A function that counts the rounds of a loop from the largest integer to itself, and stops at the
third. -/
def roundsThroughMax : Program where
  records := []
  functions := [{
    name := "main"
    params := []
    body := [
      .declare "n" none (some (.literal ⟨.int, "0"⟩)),
      .forLoop "i" (.literal ⟨.int, "9223372036854775807"⟩)
        (.literal ⟨.int, "9223372036854775807"⟩)
        [.assign [.plain "n"] (.binary .add (.var "n") (.literal ⟨.int, "1"⟩)),
          .branch (.single (.binary .eq (.var "n") (.literal ⟨.int, "3"⟩))
            [.ret (.var "n")])],
      .ret (.var "n")] }]

/-- **A loop to the largest integer**: there is one integer to go through, and a third round. -/
theorem Stmt.forLoop_through_max : ∃ m, (Machine.create {} {}).load roundsThroughMax = .ok m ∧
    (m.callMain 80).1 = some (.ok (.int 3)) := by
  have hrun : ((((Machine.create {} {}).load roundsThroughMax).toOption.bind fun m =>
      (m.callMain 80).1).bind Except.toOption) = some (.int 3) := by decide +kernel
  obtain ⟨r, hr, hv⟩ := Option.bind_eq_some_iff.mp hrun
  obtain ⟨m, hm, hcall⟩ := Option.bind_eq_some_iff.mp hr
  cases hload : (Machine.create {} {}).load roundsThroughMax with
  | error e =>
    rw [hload] at hm
    cases hm
  | ok m' =>
    rw [hload] at hm
    cases hm
    cases r with
    | error e => cases hv
    | ok v =>
      cases hv
      exact ⟨m, rfl, hcall⟩

end Opstack
