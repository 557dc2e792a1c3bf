import Opstack.Proofs.Machine.Passages

/-!
# Chains of arms

An `if` with the arms that follow it is put together by adding arms and `else` blocks, in any order
(`Branch.Addition`).  An arm goes to the end of the chain, and an `else` to the arm that is last
when it is added, where it stays (`Branch.arms_build`).

What running the code of a chain means is said over its parts.  The conditions are tried from the
first arm on until one holds, and the body of this arm is executed.  Then come the `else` blocks of
the arms that were tried in vain, from the latest to the first; they are executed after a body as
well (`Activation.RunsChain`).

`Branch.passes_build` says that this is what the code does.  If no arm is added after an `else`,
one block is executed at most, the body of the first arm that holds or otherwise the last `else`
(`Activation.RunsOneArm`).  `Branch.otherwise_then_elseIf` is a chain that executes two.
-/

set_option autoImplicit false

namespace Opstack

/-! ## Building a chain -/

/-- An `if` alone: its condition, the statements under it and its `else`. -/
structure Arm where
  /-- The condition. -/
  cond : Expr
  /-- The statements that are executed when it holds. -/
  body : List Stmt
  /-- The statements of the `else`, if there is one. -/
  orElse : Option (List Stmt)

namespace Branch

/-- What can be added to an `if`. -/
inductive Addition
  /-- One more arm at the end. -/
  | elseIf (cond : Expr) (body : List Stmt)
  /-- An `else`. -/
  | otherwise (body : List Stmt)

/-- The statements of an added `else`. -/
def Addition.otherwise? : Addition → Option (List Stmt)
  | .elseIf _ _ => none
  | .otherwise body => some body

/-- An `if` with something added. -/
def add (b : Branch) : Addition → Branch
  | .elseIf cond body => b.elseIf (.single cond body)
  | .otherwise body => b.otherwise body

/-- The `if` that begins with an arm and then gets these additions. -/
def build (cond : Expr) (body : List Stmt) (additions : List Addition) : Branch :=
  additions.foldl add (.single cond body)

mutual

/-- The arms of an `if`, each with its own `else`. -/
def arms : Branch → List Arm
  | .arm cond body next orElse => ⟨cond, body, orElse⟩ :: nextArms next

/-- The arms of the rest of a chain. -/
def nextArms : Option Branch → List Arm
  | none => []
  | some next => next.arms

end

/-- Gives the last of some arms an `else`. -/
def closeLast (body : List Stmt) : List Arm → List Arm
  | [] => []
  | [last] => [{ last with orElse := some body }]
  | first :: rest => first :: closeLast body rest

/-- Arms with something added. -/
def addToArms (arms : List Arm) : Addition → List Arm
  | .elseIf cond body => arms ++ [⟨cond, body, none⟩]
  | .otherwise body => closeLast body arms

theorem arms_ne_nil (b : Branch) : b.arms ≠ [] := by
  obtain ⟨cond, body, next, orElse⟩ := b
  rw [arms]
  exact List.cons_ne_nil _ _

mutual

theorem arms_elseIf : ∀ (b last : Branch), (b.elseIf last).arms = b.arms ++ last.arms
  | .arm cond body next orElse, last => by
    rw [elseIf, arms, arms, nextArms, arms_appendArm next last, List.cons_append]

theorem arms_appendArm : ∀ (next : Option Branch) (last : Branch),
    (appendArm next last).arms = nextArms next ++ last.arms
  | none, _ => rfl
  | some next, last => arms_elseIf next last

end

mutual

theorem arms_otherwise : ∀ (b : Branch) (body : List Stmt),
    (b.otherwise body).arms = closeLast body b.arms
  | .arm cond stmts none orElse, body => by
    rw [otherwise, arms, arms, nextArms_otherwise]
    rfl
  | .arm cond stmts (some next) orElse, body => by
    rw [otherwise, arms, arms, nextArms_otherwise, closeLast]
    · rfl
    · exact fun h => next.arms_ne_nil h

theorem nextArms_otherwise : ∀ (next : Option Branch) (body : List Stmt),
    nextArms (nextOtherwise next body) = closeLast body (nextArms next)
  | none, _ => rfl
  | some next, body => arms_otherwise next body

end

theorem arms_add (b : Branch) (addition : Addition) :
    (b.add addition).arms = addToArms b.arms addition := by
  cases addition with
  | elseIf cond body => exact arms_elseIf b _
  | otherwise body => exact arms_otherwise b body

theorem arms_foldl (additions : List Addition) (b : Branch) :
    (additions.foldl add b).arms = additions.foldl addToArms b.arms := by
  induction additions generalizing b with
  | nil => rfl
  | cons addition additions ih =>
    rw [List.foldl_cons, List.foldl_cons, ih, arms_add]

/-- **Where additions go**: an arm to the end, an `else` to the arm that is last at that time. -/
theorem arms_build (cond : Expr) (body : List Stmt) (additions : List Addition) :
    (build cond body additions).arms = additions.foldl addToArms [⟨cond, body, none⟩] :=
  arms_foldl additions _

/-! ### No arm after an `else` -/

/-- No arm is added after an `else`. -/
def InOrder (additions : List Addition) : Prop :=
  additions.Pairwise fun first later => first.otherwise?.isSome → later.otherwise?.isSome

theorem closeLast_concat (body : List Stmt) (arms : List Arm) (last : Arm) :
    closeLast body (arms ++ [last]) = arms ++ [{ last with orElse := some body }] := by
  induction arms with
  | nil => rfl
  | cons first rest ih =>
    rw [List.cons_append, closeLast, ih, List.cons_append]
    exact fun h => by simp at h

/-- If no arm comes after an `else`, no arm but the last has one, and the last has the latest. -/
theorem foldl_addToArms (additions : List Addition) (hinOrder : InOrder additions)
    (arms : List Arm) (last : Arm) (harms : ∀ a ∈ arms, a.orElse = none)
    (hlast : last.orElse.isSome → ∀ addition ∈ additions, addition.otherwise?.isSome) :
    ∃ arms' last', additions.foldl addToArms (arms ++ [last]) = arms' ++ [last'] ∧
      (∀ a ∈ arms', a.orElse = none) ∧
      last'.orElse = ((additions.filterMap Addition.otherwise?).getLast?.or last.orElse) := by
  induction additions generalizing arms last with
  | nil => exact ⟨arms, last, rfl, harms, rfl⟩
  | cons addition additions ih =>
    obtain ⟨hfirst, hrest⟩ := List.pairwise_cons.mp hinOrder
    rw [List.forall_mem_cons] at hlast
    cases addition with
    | elseIf cond body =>
      have hnone : last.orElse = none := by
        cases hsome : last.orElse with
        | none => rfl
        | some stmts => cases (hlast (by rw [hsome]; rfl)).1
      obtain ⟨arms', last', hfold, harms', hlast'⟩ := ih hrest (arms ++ [last]) ⟨cond, body, none⟩
        (List.forall_mem_append.mpr ⟨harms, List.forall_mem_singleton.mpr hnone⟩)
        (fun h => by cases h)
      exact ⟨arms', last', hfold, harms', by rw [hlast', hnone]; rfl⟩
    | otherwise body =>
      obtain ⟨arms', last', hfold, harms', hlast'⟩ := ih hrest arms
        { last with orElse := some body } harms fun _ later hlater => hfirst later hlater rfl
      refine ⟨arms', last', ?_, harms', ?_⟩
      · rw [List.foldl_cons, addToArms, closeLast_concat, hfold]
      · rw [hlast']
        change _ = (body :: additions.filterMap Addition.otherwise?).getLast?.or _
        rw [List.getLast?_cons]
        cases (additions.filterMap Addition.otherwise?).getLast? <;> rfl

end Branch

/-! ## Where the arms stand -/

/-- An arm with its places in a routine. -/
structure PlacedArm where
  /-- The arm. -/
  arm : Arm
  /-- Where the condition begins. -/
  test : Nat
  /-- The `JMPF` behind the condition; the body begins behind it. -/
  jump : Nat
  /-- The `JMP` behind the body; the next arm begins behind it. -/
  leave : Nat
  /-- Where the `else` begins, behind all later arms. -/
  other : Nat
  /-- The end of the `else`. -/
  stop : Nat

/-- The parts of an arm stand at its places, each as it is compiled in its scope: `scope` for the
condition, a block of it for the body, and `outer` for the `else`. -/
structure PlacedArm.Stands (table : RecordTable) (r : Routine) (q : PlacedArm)
    (scope inner outer scope' : Scope) : Prop where
  /-- The condition. -/
  test : ∃ code, lowerExpr table scope q.arm.cond = .ok code ∧ r.Holds q.test code ∧
    q.jump = q.test + code.length
  /-- The jump behind it. -/
  jump : r.get? q.jump = some (.jmpf (q.leave + 1))
  /-- The body. -/
  body : ∃ code, lowerStmts table (q.jump + 1) scope.enter q.arm.body = .ok (code, inner) ∧
    r.Holds (q.jump + 1) code ∧ q.leave = q.jump + 1 + code.length
  /-- The jump behind it. -/
  leave : r.get? q.leave = some (.jmp q.stop)
  /-- The `else`. -/
  orElse : ∃ code, lowerElse table q.other outer q.arm.orElse = .ok (code, scope') ∧
    r.Holds q.other code ∧ q.stop = q.other + code.length
  /-- The scopes are those of open blocks. -/
  nested : scope.Nested ∧ outer.Nested

/-- The arms of a chain stand in a routine, from a place to another: each arm behind the body of the
one before, and its `else` behind all later arms. -/
inductive PlacedArm.Chain (table : RecordTable) (r : Routine) :
    Nat → Scope → List PlacedArm → Nat → Scope → Prop
  | nil {place : Nat} {scope : Scope} : Chain table r place scope [] place scope
  | cons {q : PlacedArm} {rest : List PlacedArm} {scope inner outer scope' : Scope}
      (h : q.Stands table r scope inner outer scope')
      (hrest : Chain table r (q.leave + 1) inner.leave rest q.other outer)
      (hle : q.leave + 1 ≤ q.other) (hclosed : r.ClosedIn (q.leave + 1) q.other) :
      Chain table r q.test scope (q :: rest) q.stop scope'

section

variable {table : RecordTable} {r : Routine}

mutual

theorem exists_chain_of_lowerBranch : ∀ {b : Branch} {start : Nat} {scope scope' : Scope}
    {code : List Instr}, lowerBranch table start scope b = .ok (code, scope') → scope.Nested →
      r.Holds start code → ∃ arms : List PlacedArm, arms.map PlacedArm.arm = b.arms ∧
        PlacedArm.Chain table r start scope arms (start + code.length) scope'
  | .arm cond body next orElse, start, scope, scope', _, h, hs, hcode => by
    simp only [lowerBranch, bind_eq_ok, pure_eq_ok] at h
    obtain ⟨test, ht, ⟨code, inner⟩, hb, ⟨nextCode, scope₁⟩, hn, ⟨elseCode, scope₂⟩, he, heq⟩ := h
    cases heq
    obtain ⟨htest, hjump, hbody, hleave, hnext, helse⟩ := holds_arm.mp hcode
    -- The scope behind the body is that of the block around the `if`.
    have hinner := code_of_lowerStmts hb (Stmt.allObey_free body) hs.enter
    have hs₁ : inner.leave.Nested := by
      rw [hinner.extends.leave hs]
      exact hs.extends hinner.extends.after_enter
    have hnextCode := code_of_lowerNext hn (Branch.nextObeys_free next) hs₁
    obtain ⟨rest, hrest, hchain⟩ := exists_chain_of_lowerNext hn hs₁ hnext
    have hstands : PlacedArm.Stands table r
        { arm := ⟨cond, body, orElse⟩
          test := start
          jump := start + test.length
          leave := start + test.length + 1 + code.length
          other := start + test.length + 1 + code.length + 1 + nextCode.length
          stop := start + test.length + 1 + code.length + 1 + nextCode.length + elseCode.length }
        scope inner scope₁ scope₂ :=
      ⟨⟨test, ht, htest, rfl⟩, hjump, ⟨code, hb, hbody, rfl⟩, hleave, ⟨elseCode, he, helse, rfl⟩,
        hs, hs₁.extends hnextCode.extends⟩
    have hstop : start + (test ++ .jmpf (start + test.length + 1 + code.length + 1) :: code ++
        .jmp (start + test.length + 1 + code.length + 1 + nextCode.length + elseCode.length) ::
        nextCode ++ elseCode).length =
        start + test.length + 1 + code.length + 1 + nextCode.length + elseCode.length := by
      simp only [List.length_append, List.length_cons]
      omega
    rw [hstop]
    exact ⟨_ :: rest, by rw [List.map_cons, hrest, Branch.arms],
      .cons hstands hchain (Nat.le_add_right _ _) (hnextCode.jumpsWithin.closedIn hnext rfl)⟩

theorem exists_chain_of_lowerNext : ∀ {next : Option Branch} {start : Nat}
    {scope scope' : Scope} {code : List Instr},
    lowerNext table start scope next = .ok (code, scope') → scope.Nested → r.Holds start code →
      ∃ arms : List PlacedArm, arms.map PlacedArm.arm = Branch.nextArms next ∧
        PlacedArm.Chain table r start scope arms (start + code.length) scope'
  | none, _, _, _, _, h, _, _ => by
    cases h
    exact ⟨[], rfl, .nil⟩
  | some next, _, _, _, _, h, hs, hcode => exists_chain_of_lowerBranch h hs hcode

end

end

/-! ## Running a chain -/

namespace Activation

section

variable (a : Activation) (routines : List Routine)

/-- The conditions of some arms are tried one after the other, and none holds. -/
inductive TriesInVain : List PlacedArm → Execution → List Point → Execution → Prop
  | nil (x : Execution) : TriesInVain [] x [] x
  | cons {q : PlacedArm} {rest : List PlacedArm} {x x₁ x₂ y : Execution}
      {points points' : List Point} {p : Point}
      (htest : a.Passes routines q.test q.jump x points x₁)
      (hfalse : a.Decides routines q.jump (q.leave + 1) false x₁ p x₂)
      (hrest : TriesInVain rest x₂ points' y) : TriesInVain (q :: rest) x (points ++ p :: points') y

/-- The `else` blocks of some arms are executed one after the other. -/
inductive RunsElses : List PlacedArm → Execution → List Point → Execution → Prop
  | nil (x : Execution) : RunsElses [] x [] x
  | cons {q : PlacedArm} {rest : List PlacedArm} {x x₁ y : Execution} {points points' : List Point}
      (helse : a.Passes routines q.other q.stop x points x₁)
      (hrest : RunsElses rest x₁ points' y) : RunsElses (q :: rest) x (points ++ points') y

/-- The condition of an arm holds, and its body is executed. -/
inductive RunsBody (q : PlacedArm) : Execution → List Point → Execution → Prop
  | intro {x x₁ x₂ x₃ y : Execution} {points points' : List Point} {p p' : Point}
      (htest : a.Passes routines q.test q.jump x points x₁)
      (htrue : a.Decides routines q.jump (q.leave + 1) true x₁ p x₂)
      (hbody : a.Passes routines (q.jump + 1) q.leave x₂ points' x₃)
      (hleave : a.Jumps routines q.leave q.stop x₃ p' y) :
      RunsBody q x (points ++ p :: (points' ++ [p'])) y

/-- The condition of an arm does not hold; the later arms are gone through in a given way, and the
`else` of the arm is executed. -/
inductive RunsRest (q : PlacedArm) (Later : Execution → List Point → Execution → Prop) :
    Execution → List Point → Execution → Prop
  | intro {x x₁ x₂ x₃ y : Execution} {points points₁ points₂ : List Point} {p : Point}
      (htest : a.Passes routines q.test q.jump x points x₁)
      (hfalse : a.Decides routines q.jump (q.leave + 1) false x₁ p x₂)
      (hlater : Later x₂ points₁ x₃) (helse : a.Passes routines q.other q.stop x₃ points₂ y) :
      RunsRest q Later x (points ++ p :: (points₁ ++ points₂)) y

/-- The body of the first arm that holds is executed, if there is one, and then the `else` blocks of
all arms that were tried in vain, from the latest to the first. -/
inductive RunsChain (arms : List PlacedArm) : Execution → List Point → Execution → Prop
  | taken {before after : List PlacedArm} {q : PlacedArm} {x x₁ x₂ y : Execution}
      {points points₁ points₂ : List Point} (harms : arms = before ++ q :: after)
      (hvain : a.TriesInVain routines before x points x₁)
      (hbody : a.RunsBody routines q x₁ points₁ x₂)
      (helses : a.RunsElses routines before.reverse x₂ points₂ y) :
      RunsChain arms x (points ++ (points₁ ++ points₂)) y
  | none {x x₁ y : Execution} {points points₁ : List Point}
      (hvain : a.TriesInVain routines arms x points x₁)
      (helses : a.RunsElses routines arms.reverse x₁ points₁ y) :
      RunsChain arms x (points ++ points₁) y

/-- The body of the first arm that holds is executed and nothing else, or, where none holds, the
`else` of the last arm. -/
inductive RunsOneArm (arms : List PlacedArm) : Execution → List Point → Execution → Prop
  | taken {before after : List PlacedArm} {q : PlacedArm} {x x₁ y : Execution}
      {points points₁ : List Point} (harms : arms = before ++ q :: after)
      (hvain : a.TriesInVain routines before x points x₁)
      (hbody : a.RunsBody routines q x₁ points₁ y) : RunsOneArm arms x (points ++ points₁) y
  | none {q : PlacedArm} {x x₁ y : Execution} {points points₁ : List Point}
      (hlast : arms.getLast? = some q) (hvain : a.TriesInVain routines arms x points x₁)
      (helse : a.Passes routines q.other q.stop x₁ points₁ y) :
      RunsOneArm arms x (points ++ points₁) y

end

variable {a : Activation} {routines : List Routine} {q : PlacedArm} {arms rest : List PlacedArm}
  {Later Later' : Execution → List Point → Execution → Prop} {x y z : Execution}
  {points points' : List Point}

theorem RunsRest.congr
    (h : ∀ x points y, a.At (q.leave + 1) x → (Later x points y ↔ Later' x points y)) :
    a.RunsRest routines q Later x points y ↔ a.RunsRest routines q Later' x points y := by
  constructor
  · rintro ⟨htest, hfalse, hlater, helse⟩
    exact .intro htest hfalse ((h _ _ _ hfalse.ends).mp hlater) helse
  · rintro ⟨htest, hfalse, hlater, helse⟩
    exact .intro htest hfalse ((h _ _ _ hfalse.ends).mpr hlater) helse

theorem runsElses_append (h : a.RunsElses routines arms x points y)
    (h' : a.RunsElses routines rest y points' z) :
    a.RunsElses routines (arms ++ rest) x (points ++ points') z := by
  induction h with
  | nil x => exact h'
  | cons helse _ ih =>
    rw [List.cons_append, List.append_assoc]
    exact .cons helse (ih h')

theorem runsElses_append_singleton :
    a.RunsElses routines (arms ++ [q]) x points z ↔ ∃ front back y, points = front ++ back ∧
      a.RunsElses routines arms x front y ∧ a.Passes routines q.other q.stop y back z := by
  constructor
  · intro h
    induction arms generalizing x points with
    | nil =>
      cases h with
      | cons helse hrest =>
        cases hrest
        exact ⟨[], _, x, List.append_nil _, .nil x, helse⟩
    | cons first arms ih =>
      cases h with
      | cons helse hrest =>
        obtain ⟨front, back, y, rfl, hfront, hback⟩ := ih hrest
        exact ⟨_, back, y, (List.append_assoc _ _ _).symm, .cons helse hfront, hback⟩
  · rintro ⟨front, back, y, rfl, hfront, hback⟩
    have hlast := RunsElses.cons hback (.nil z)
    rw [List.append_nil] at hlast
    exact runsElses_append hfront hlast

theorem runsChain_nil_iff : a.RunsChain routines [] x points y ↔ points = [] ∧ x = y := by
  constructor
  · intro h
    cases h with
    | taken harms => cases List.append_eq_nil_iff.mp harms.symm |>.2
    | none hvain helses =>
      cases hvain
      cases helses
      exact ⟨rfl, rfl⟩
  · rintro ⟨rfl, rfl⟩
    exact .none (.nil x) (.nil x)

/-- A chain is its first arm, or what comes behind that. -/
theorem runsChain_cons_iff :
    a.RunsChain routines (q :: rest) x points y ↔
      a.RunsBody routines q x points y ∨
        a.RunsRest routines q (a.RunsChain routines rest) x points y := by
  constructor
  · intro h
    cases h with
    | @taken before after q' _ _ _ _ _ _ _ harms hvain hbody helses =>
      cases hvain with
      | nil =>
        cases harms
        cases helses
        rw [List.append_nil, List.nil_append]
        exact .inl hbody
      | cons htest hfalse hvain =>
        cases harms
        rw [List.reverse_cons, runsElses_append_singleton] at helses
        obtain ⟨front, back, x₁, rfl, hfront, hback⟩ := helses
        have hlater : a.RunsChain routines (_ ++ q' :: after) _ _ _ :=
          .taken rfl hvain hbody hfront
        have hrest := RunsRest.intro htest hfalse hlater hback
        simp only [List.append_assoc, List.cons_append] at hrest ⊢
        exact .inr hrest
    | none hvain helses =>
      cases hvain with
      | cons htest hfalse hvain =>
        rw [List.reverse_cons, runsElses_append_singleton] at helses
        obtain ⟨front, back, x₁, rfl, hfront, hback⟩ := helses
        have hrest := RunsRest.intro htest hfalse (RunsChain.none hvain hfront) hback
        simp only [List.append_assoc, List.cons_append] at hrest ⊢
        exact .inr hrest
  · rintro (hbody | ⟨htest, hfalse, hlater, helse⟩)
    · have htaken := RunsChain.taken (List.nil_append (q :: rest)).symm (.nil x) hbody (.nil y)
      rwa [List.append_nil, List.nil_append] at htaken
    · cases hlater with
      | taken harms hvain hbody helses =>
        have helses := runsElses_append_singleton.mpr ⟨_, _, _, rfl, helses, helse⟩
        rw [← List.reverse_cons] at helses
        have htaken := RunsChain.taken (congrArg (q :: ·) harms) (.cons htest hfalse hvain) hbody
          helses
        simp only [List.append_assoc, List.cons_append] at htaken ⊢
        exact htaken
      | none hvain helses =>
        have helses := runsElses_append_singleton.mpr ⟨_, _, _, rfl, helses, helse⟩
        rw [← List.reverse_cons] at helses
        have hnone := RunsChain.none (.cons htest hfalse hvain) helses
        simp only [List.append_assoc, List.cons_append] at hnone ⊢
        exact hnone

/-- Of a chain one arm is run if the first one holds, or if it does not and one of the others is
run, or its `else` where there are no others. -/
theorem runsOneArm_cons_iff :
    a.RunsOneArm routines (q :: rest) x points z ↔
      a.RunsBody routines q x points z ∨ ∃ front p back x₁ x₂, points = front ++ p :: back ∧
        a.Passes routines q.test q.jump x front x₁ ∧
        a.Decides routines q.jump (q.leave + 1) false x₁ p x₂ ∧
        (rest = [] ∧ a.Passes routines q.other q.stop x₂ back z ∨
          a.RunsOneArm routines rest x₂ back z) := by
  constructor
  · intro h
    cases h with
    | taken harms hvain hbody =>
      cases hvain with
      | nil =>
        cases harms
        exact .inl hbody
      | cons htest hfalse hvain =>
        cases harms
        refine .inr ⟨_, _, _, _, _, ?_, htest, hfalse, .inr (.taken rfl hvain hbody)⟩
        rw [List.append_assoc, List.cons_append]
    | none hlast hvain helse =>
      cases hvain with
      | @cons _ _ _ _ _ _ front back p htest hfalse hvain =>
        rw [List.append_assoc, List.cons_append]
        refine .inr ⟨front, p, _, _, _, rfl, htest, hfalse, ?_⟩
        rcases rest with _ | ⟨q', rest⟩
        · cases hlast
          cases hvain
          exact .inl ⟨rfl, helse⟩
        · rw [List.getLast?_cons_cons] at hlast
          exact .inr (.none hlast hvain helse)
  · rintro (hbody | ⟨front, p, back, x₁, x₂, rfl, htest, hfalse, ⟨rfl, helse⟩ | hone⟩)
    · exact .taken (List.nil_append _).symm (.nil x) hbody
    · have hnone : a.RunsOneArm routines [q] _ _ z :=
        .none rfl (.cons htest hfalse (.nil x₂)) helse
      rwa [List.append_assoc, List.cons_append] at hnone
    · cases hone with
      | taken harms hvain hbody =>
        have htaken := RunsOneArm.taken (congrArg (q :: ·) harms) (.cons htest hfalse hvain) hbody
        rwa [List.append_assoc, List.cons_append] at htaken
      | @none q' _ _ _ _ _ hlast hvain helse =>
        have hlast' : (q :: rest).getLast? = some q' := by
          rw [List.getLast?_cons, hlast]
          rfl
        have hnone := RunsOneArm.none hlast' (.cons htest hfalse hvain) helse
        rwa [List.append_assoc, List.cons_append] at hnone

end Activation

/-! ### One arm -/

namespace PlacedArm.Stands

variable {table : RecordTable} {r : Routine} {q : PlacedArm} {scope inner outer scope' : Scope}
  {a : Activation} {routines : List Routine} {x y : Execution} {points : List Point}

theorem closedIn_test (h : q.Stands table r scope inner outer scope') :
    r.ClosedIn q.test q.jump ∧ q.test ≤ q.jump := by
  obtain ⟨code, hcode, hat, hjump⟩ := h.test
  have hallows := (code_of_lowerExpr hcode (Expr.obeys_free _)).allows
  exact ⟨(jumpsWithin_of_allows hallows).closedIn hat hjump, by omega⟩

theorem closedIn_body (h : q.Stands table r scope inner outer scope') :
    r.ClosedIn (q.jump + 1) q.leave ∧ q.jump + 1 ≤ q.leave := by
  obtain ⟨code, hcode, hat, hleave⟩ := h.body
  have hstmts := code_of_lowerStmts hcode (Stmt.allObey_free _) h.nested.1.enter
  exact ⟨(hleave ▸ hstmts.jumpsWithin).closedIn hat hleave, by omega⟩

theorem closedIn_orElse (h : q.Stands table r scope inner outer scope') :
    r.ClosedIn q.other q.stop ∧ q.other ≤ q.stop := by
  obtain ⟨code, hcode, hat, hstop⟩ := h.orElse
  have helse := code_of_lowerElse hcode (Stmt.elseObeys_free _) h.nested.2
  exact ⟨(hstop ▸ helse.jumpsWithin).closedIn hat hstop, by omega⟩

/-- An arm without an `else` ends where the `else` would begin. -/
theorem stop_eq (h : q.Stands table r scope inner outer scope') (hnone : q.arm.orElse = none) :
    q.stop = q.other := by
  obtain ⟨code, hcode, -, hstop⟩ := h.orElse
  rw [hnone] at hcode
  cases hcode
  exact hstop

/-- **One arm**: its body is executed, or what stands behind it. -/
theorem leaves_iff (h : q.Stands table a.routine scope inner outer scope')
    (hle : q.leave + 1 ≤ q.other) (hclosed : a.routine.ClosedIn (q.leave + 1) q.other)
    (hat : a.At q.test x) :
    a.Leaves routines q.test q.stop x points y ↔
      a.RunsBody routines q x points y ∨
        a.RunsRest routines q (a.Passes routines (q.leave + 1) q.other) x points y := by
  obtain ⟨hctest, hltest⟩ := h.closedIn_test
  obtain ⟨hcbody, hlbody⟩ := h.closedIn_body
  obtain ⟨hcelse, hlelse⟩ := h.closedIn_orElse
  constructor
  · intro hleaves
    obtain ⟨points, back, x₁, rfl, htest, hback⟩ :=
      hleaves.exists_passes hat hctest hltest (by omega)
    obtain ⟨b, p, x₂, back, rfl, hdecides, hback⟩ :=
      (Activation.leaves_jmpf_iff h.jump htest.ends (by omega) (by omega)).mp hback
    cases b with
    | true =>
      obtain ⟨points', back, x₃, rfl, hbody, hback⟩ :=
        hback.exists_passes hdecides.ends hcbody hlbody (by omega)
      obtain ⟨p', x₄, back, rfl, hjumps, hback⟩ :=
        (Activation.leaves_jmp_iff h.leave hbody.ends (by omega) (by omega)).mp hback
      obtain ⟨rfl, rfl⟩ := hback.eq_of_at hjumps.ends
      exact .inl (.intro htest hdecides hbody hjumps)
    | false =>
      obtain ⟨points₁, back, x₃, rfl, hnext, hback⟩ :=
        hback.exists_passes hdecides.ends hclosed hle hlelse
      obtain ⟨points₂, back, x₄, rfl, helse, hback⟩ :=
        hback.exists_passes hnext.ends hcelse hlelse (Nat.le_refl _)
      obtain ⟨rfl, rfl⟩ := hback.eq_of_at helse.ends
      rw [List.append_nil]
      exact .inr (.intro htest hdecides hnext helse)
  · rintro (hbody | hrest)
    · cases hbody with
      | intro htest htrue hbody hleave =>
        have hback : a.Leaves routines q.test q.stop _ _ y :=
          (Activation.leaves_jmp_iff h.leave hleave.starts (by omega) (by omega)).mpr
            ⟨_, _, _, rfl, hleave, Activation.leaves_nil hleave.ends⟩
        have hback := hbody.append hback (by omega) (by omega)
        have hback := (Activation.leaves_jmpf_iff h.jump htrue.starts (by omega) (by omega)).mpr
          ⟨_, _, _, _, rfl, htrue, hback⟩
        exact htest.append hback (Nat.le_refl _) (by omega)
    · cases hrest with
      | intro htest hfalse hnext helse =>
        have hback : a.Leaves routines q.test q.stop _ _ y := helse.toLeaves.mono (by omega)
        have hback := hnext.append hback (by omega) (by omega)
        have hback := (Activation.leaves_jmpf_iff h.jump hfalse.starts (by omega) (by omega)).mpr
          ⟨_, _, _, _, rfl, hfalse, hback⟩
        exact htest.append hback (Nat.le_refl _) (by omega)

end PlacedArm.Stands

/-! ### All arms -/

namespace PlacedArm.Chain

variable {table : RecordTable} {a : Activation} {routines : List Routine}
  {scope scope' : Scope} {arms : List PlacedArm} {x y : Execution} {points : List Point}
  {start stop : Nat}

theorem place_eq {r : Routine} (h : PlacedArm.Chain table r start scope [] stop scope') :
    start = stop := by
  cases h
  rfl

/-- **The code of a chain** runs the chain. -/
theorem leaves_iff_runsChain (h : PlacedArm.Chain table a.routine start scope arms stop scope')
    (hat : a.At start x) :
    a.Leaves routines start stop x points y ↔ a.RunsChain routines arms x points y := by
  generalize hr : a.routine = r at h
  induction h generalizing x points y with
  | nil =>
    rw [Activation.runsChain_nil_iff]
    constructor
    · exact fun hleaves => hleaves.eq_of_at hat
    · rintro ⟨rfl, rfl⟩
      exact Activation.leaves_nil hat
  | @cons q rest _ _ _ _ hstands _ hle hclosed ih =>
    subst hr
    rw [hstands.leaves_iff hle hclosed hat, Activation.runsChain_cons_iff]
    refine or_congr Iff.rfl (Activation.RunsRest.congr fun x₂ points₂ x₃ hat₂ => ?_)
    rw [← ih hat₂]
    exact ⟨fun hpasses => hpasses.toLeaves, fun hleaves => ⟨hleaves, hat₂⟩⟩

/-- If no arm but the last has an `else`, the code of a chain runs one arm. -/
theorem leaves_iff_runsOneArm
    (h : PlacedArm.Chain table a.routine start scope arms stop scope') (harms : arms ≠ [])
    (hnone : ∀ q ∈ arms.dropLast, q.arm.orElse = none) (hat : a.At start x) :
    a.Leaves routines start stop x points y ↔ a.RunsOneArm routines arms x points y := by
  generalize hr : a.routine = r at h
  induction h generalizing x points y with
  | nil => exact absurd rfl harms
  | @cons q rest _ _ _ _ hstands hrest hle hclosed ih =>
    subst hr
    rw [hstands.leaves_iff hle hclosed hat]
    rw [Activation.runsOneArm_cons_iff]
    refine or_congr Iff.rfl ⟨?_, ?_⟩
    · rintro ⟨htest, hfalse, hnext, helse⟩
      refine ⟨_, _, _, _, _, rfl, htest, hfalse, ?_⟩
      rcases rest with _ | ⟨q', rest⟩
      · obtain ⟨rfl, rfl⟩ := hnext.eq_of_at (hrest.place_eq ▸ hnext.starts)
        exact .inl ⟨rfl, helse⟩
      · have hstop := hstands.stop_eq (hnone q List.mem_cons_self)
        obtain ⟨rfl, rfl⟩ := helse.eq_of_at (hstop ▸ hnext.ends)
        rw [List.append_nil]
        exact .inr ((ih (List.cons_ne_nil _ _) (fun q' hq' => hnone q' (List.mem_cons_of_mem _ hq'))
          hnext.starts).mp hnext.toLeaves)
    · rintro ⟨front, p, back, x₁, x₂, rfl, htest, hfalse, hlater⟩
      rcases rest with _ | ⟨q', rest⟩
      · have hat : a.At q.other x₂ := hrest.place_eq ▸ hfalse.ends
        rcases hlater with ⟨-, helse⟩ | hlater
        · rw [← List.nil_append back]
          exact .intro htest hfalse ⟨Activation.leaves_nil hat, hfalse.ends⟩ helse
        · cases hlater with
          | taken harms => cases List.append_eq_nil_iff.mp harms.symm |>.2
          | none hlast => cases hlast
      · have hlater := hlater.resolve_left fun h => by cases h.1
        have hnext := (ih (List.cons_ne_nil _ _)
          (fun q' hq' => hnone q' (List.mem_cons_of_mem _ hq')) hfalse.ends).mpr hlater
        have hstop := hstands.stop_eq (hnone q List.mem_cons_self)
        have helse : a.Passes routines q.other q.stop y [] y :=
          ⟨Activation.leaves_nil (hstop ▸ hnext.ends), hnext.ends⟩
        rw [← List.append_nil back]
        exact .intro htest hfalse ⟨hnext, hfalse.ends⟩ helse

end PlacedArm.Chain

/-! ## Chains as they are built -/

namespace Branch

/-- **What a chain does**, in whatever order it was put together.  Its arms stand one after the
other, and whoever goes through its code runs them: the body of the first arm that holds is
executed, and then the `else` blocks of the arms before it; where no arm holds, all `else` blocks
are executed.  If no arm was added after an `else`, that is one arm or the last `else` that was
added, and nothing else. -/
theorem passes_build {table : RecordTable} {start : Nat} {scope scope' : Scope} {cond : Expr}
    {body : List Stmt} {additions : List Addition} {code : List Instr} {a : Activation}
    (h : lowerBranch table start scope (build cond body additions) = .ok (code, scope'))
    (hs : scope.Nested) (hcode : a.routine.Holds start code) (routines : List Routine) :
    ∃ arms : List PlacedArm,
      arms.map PlacedArm.arm = additions.foldl addToArms [⟨cond, body, none⟩] ∧
      PlacedArm.Chain table a.routine start scope arms (start + code.length) scope' ∧
      (∀ x points y, a.Passes routines start (start + code.length) x points y ↔
        a.At start x ∧ a.RunsChain routines arms x points y) ∧
      (InOrder additions →
        (arms.getLast?.bind fun q => q.arm.orElse) =
          (additions.filterMap Addition.otherwise?).getLast? ∧
        ∀ x points y, a.Passes routines start (start + code.length) x points y ↔
          a.At start x ∧ a.RunsOneArm routines arms x points y) := by
  obtain ⟨arms, harms, hchain⟩ := exists_chain_of_lowerBranch h hs hcode
  rw [arms_build] at harms
  refine ⟨arms, harms, hchain, fun x points y => ?_, fun hinOrder => ?_⟩
  · constructor
    · exact fun hpasses =>
        ⟨hpasses.starts, (hchain.leaves_iff_runsChain hpasses.starts).mp hpasses.toLeaves⟩
    · rintro ⟨hat, hruns⟩
      exact ⟨(hchain.leaves_iff_runsChain hat).mpr hruns, hat⟩
  · obtain ⟨first, last, hfold, hfirst, hlast⟩ := foldl_addToArms additions hinOrder []
      ⟨cond, body, none⟩ (List.forall_mem_nil _) (fun h => by cases h)
    rw [Option.or_none] at hlast
    rw [List.nil_append, ← harms] at hfold
    obtain ⟨front, back, rfl, rfl, hback⟩ := List.map_eq_append_iff.mp hfold
    obtain ⟨q, rfl, rfl⟩ := List.map_eq_singleton_iff.mp hback
    have hnone : ∀ p ∈ (front ++ [q]).dropLast, p.arm.orElse = none := by
      rw [List.dropLast_concat]
      exact fun p hp => hfirst p.arm (List.mem_map_of_mem hp)
    have hne : front ++ [q] ≠ [] := List.append_ne_nil_of_right_ne_nil _ (List.cons_ne_nil _ _)
    refine ⟨by rw [List.getLast?_concat]; exact hlast, fun x points y => ?_⟩
    constructor
    · exact fun hpasses => ⟨hpasses.starts,
        (hchain.leaves_iff_runsOneArm hne hnone hpasses.starts).mp hpasses.toLeaves⟩
    · rintro ⟨hat, hruns⟩
      exact ⟨(hchain.leaves_iff_runsOneArm hne hnone hat).mpr hruns, hat⟩

/-- A chain of two arms and an `else`, in which each block declares a variable and the second arm
holds. -/
def twoArms : Branch :=
  build (.literal ⟨.bool, "false"⟩) [.declare "a" none (some (.literal ⟨.int, "1"⟩))]
    [.elseIf (.literal ⟨.bool, "true"⟩) [.declare "b" none (some (.literal ⟨.int, "2"⟩))],
      .otherwise [.declare "c" none (some (.literal ⟨.int, "3"⟩))]]

/-- The routine that is the code of these arms and nothing else. -/
def twoArmsRoutine : Routine :=
  ⟨"arms", match lowerBranch [] 0 {} twoArms with
    | .ok (code, _) => code.toArray
    | .error _ => #[]⟩

theorem passes_build_twoArms : ∃ code scope',
    lowerBranch [] 0 {} twoArms = .ok (code, scope') ∧ ({} : Scope).Nested ∧
      twoArmsRoutine.Holds 0 code ∧
      ∃ arms points slots, Activation.RunsOneArm ⟨twoArmsRoutine, []⟩ [] arms
        ⟨none, 0, [], [⟨twoArmsRoutine, #[], 0⟩]⟩ points
        ⟨none, 0, [], [⟨twoArmsRoutine, slots, code.length⟩]⟩ ∧ slots = #[.null, .int 2] := by
  have hs : ({} : Scope).Nested := fun l hl => by cases hl
  have hcode : lowerBranch [] 0 {} twoArms =
      .ok (twoArmsRoutine.code.toList, { slotCount := 3 }) := by rfl
  have hholds : twoArmsRoutine.Holds 0 twoArmsRoutine.code.toList := holds_toList _
  obtain ⟨arms, -, -, -, hone⟩ := passes_build (a := ⟨twoArmsRoutine, []⟩) hcode hs hholds []
  obtain ⟨-, hone⟩ := hone (by simp [InOrder, Addition.otherwise?])
  let s : Shared := (Machine.create {} {}).shared
  have hpath : Execution.Path [] ⟨none, 0, [], [⟨twoArmsRoutine, #[], 0⟩]⟩ _
      ⟨none, 0, [], [⟨twoArmsRoutine, #[.null, .int 2], 12⟩]⟩ :=
    .step (s := s) rfl (.continues rfl) <| .step (s := s) rfl (.continues rfl) <|
    .step (s := s) rfl (.continues rfl) <| .step (s := s) rfl (.continues rfl) <|
    .step (s := s) rfl (.continues rfl) <| .step (s := s) rfl (.continues rfl) <|
    .step (s := s) rfl (.continues rfl) (.refl _)
  refine ⟨_, _, hcode, hs, hholds, arms, _, _,
    ((hone _ _ _).mp ⟨⟨hpath, ?_, ⟨_, rfl⟩⟩, ⟨_, rfl⟩⟩).2, rfl⟩
  repeat' refine List.forall_mem_cons.mpr ⟨.here ⟨_, rfl⟩ (by decide) (by decide), ?_⟩
  exact List.forall_mem_nil _

/-- A function that tells which blocks of a chain were executed: the first arm adds one, the second
one ten, and the `else`, which is added before the second arm, a hundred. -/
def tally : Program where
  records := []
  functions := [{
    name := "main"
    params := []
    body := [
      .declare "n" none (some (.literal ⟨.int, "0"⟩)),
      .branch (build (.literal ⟨.bool, "false"⟩)
        [.assign [.plain "n"] (.binary .add (.var "n") (.literal ⟨.int, "1"⟩))]
        [.otherwise [.assign [.plain "n"] (.binary .add (.var "n") (.literal ⟨.int, "100"⟩))],
          .elseIf (.literal ⟨.bool, "true"⟩)
            [.assign [.plain "n"] (.binary .add (.var "n") (.literal ⟨.int, "10"⟩))]]),
      .ret (.var "n")] }]

/-- **An arm after an `else`**: the second arm holds, and the `else` is executed as well. -/
theorem otherwise_then_elseIf : ∃ m, (Machine.create {} {}).load tally = .ok m ∧
    (m.callMain 40).1 = some (.ok (.int 110)) :=
  ⟨_, rfl, rfl⟩

end Branch

end Opstack
