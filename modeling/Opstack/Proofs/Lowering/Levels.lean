import Opstack.Proofs.Lowering.Jumps
import Opstack.Proofs.Machine.Effects

/-!
# The height of the operand stack

How many operands there are in front of an instruction can be computed from the instructions
before it, one after the other and whatever the jumps do (`climb`).  The reason is that compiled
code is at rest, with nothing of its own on the stack, wherever it jumps from, wherever it jumps
to, and behind a `RET`: `Clause.Code.climbs` is the induction on the statement that says so.
Where a statement begins or ends the code is at rest too.

A call takes its arguments off and pushes its result, so the height is also right across calls.
That needs callers that pass as many arguments as the callee stores, which is what
`Program.callRules` is for.
-/

set_option autoImplicit false

namespace Opstack

/-! ## Counting -/

section

variable (arity : String → Option Nat)

/-- How many operands are gone after an instruction: for a call the arguments of the routine, for
a return the result. -/
def Instr.takes (i : Instr) : Option Nat :=
  match i.op, i.arg with
  | .call, some (.name name) => arity name
  | .call, _ => none
  | .ret, _ => some 1
  | op, _ => some op.pops

/-- How many operands an instruction leaves in place of those that it takes. -/
def Instr.leaves (i : Instr) : Nat :=
  match i.op with
  | .call => 1
  | op => op.pushes

/-- The number of operands behind an instruction, if there are enough in front of it. -/
def Instr.climb (i : Instr) (height : Nat) : Option Nat :=
  match i.takes arity with
  | some n => if n ≤ height then some (height - n + i.leaves) else none
  | none => none

/-- The number of operands behind instructions, if there are always enough. -/
def climb : Nat → List Instr → Option Nat
  | height, [] => some height
  | height, i :: rest => (i.climb arity height).bind fun height => climb height rest

@[simp] theorem climb_nil (height : Nat) : climb arity height [] = some height := rfl

theorem climb_cons (height : Nat) (i : Instr) (rest : List Instr) :
    climb arity height (i :: rest) =
      (i.climb arity height).bind fun height => climb arity height rest := rfl

theorem climb_append (height : Nat) (a b : List Instr) :
    climb arity height (a ++ b) =
      (climb arity height a).bind fun height => climb arity height b := by
  induction a generalizing height with
  | nil => rfl
  | cons i a ih =>
    rw [List.cons_append, climb_cons, climb_cons]
    cases i.climb arity height with
    | none => rfl
    | some height => exact ih height

variable {arity}

theorem climb_trans {height mid last : Nat} {a b : List Instr}
    (ha : climb arity height a = some mid) (hb : climb arity mid b = some last) :
    climb arity height (a ++ b) = some last := by
  rw [climb_append, ha]
  exact hb

theorem climb_of_takes {i : Instr} {n k last : Nat} {rest : List Instr}
    (htakes : i.takes arity = some n) (h : climb arity (k + i.leaves) rest = some last) :
    climb arity (k + n) (i :: rest) = some last := by
  rw [climb_cons]
  simpa [Instr.climb, htakes] using h

end

/-! ## Expressions -/

/-- The calls that the rules allow pass as many arguments as there are to take. -/
def Rules.Counts (rules : Rules) (arity : String → Option Nat) : Prop :=
  ∀ name n height, rules.call name n = true →
    climb arity (height + n) (callCode name) = some (height + 1)

namespace Term

/-- How many operands the code of the term works on. -/
def takes : Term → Nat
  | .fields _ _ | .steps _ | .index _ => 1
  | _ => 0

/-- How many operands the code of the term leaves. -/
def leaves : Term → Nat
  | .args es => es.length
  | _ => 1

end Term

section

variable {rules : Rules} {arity : String → Option Nat} {table : RecordTable} {scope : Scope}

/-- **An expression leaves one operand more**, its value. -/
theorem Term.Code.climbs {term : Term} {code : List Instr}
    (h : Term.Code rules table scope term code) (hrules : rules.Counts arity) (height : Nat) :
    climb arity (height + term.takes) code = some (height + term.leaves) := by
  induction h generalizing height with
  | literal _ => exact climb_of_takes rfl rfl
  | path _ ih => exact ih height
  | call hcall _ ih => exact climb_trans (ih height) (hrules _ _ height hcall)
  | newRecord _ _ _ ih => exact climb_of_takes (n := 0) rfl (ih height)
  | newArray _ ih => exact climb_trans (ih height) (climb_of_takes rfl rfl)
  | not _ ih => exact climb_trans (ih height) (climb_of_takes rfl rfl)
  | binary _ _ _ ihl ihr =>
    exact climb_trans (climb_trans (ihl height) (ihr (height + 1)))
      (climb_of_takes (n := 2) rfl rfl)
  | swapped _ _ _ ihr ihl =>
    exact climb_trans (climb_trans (ihr height) (ihl (height + 1)))
      (climb_of_takes (n := 2) rfl rfl)
  | noArgs => rfl
  | args _ _ ihrest ih => exact climb_trans (ihrest height) (ih _)
  | noFields => rfl
  | fields _ _ ih ihrest =>
    exact climb_trans (climb_of_takes rfl (ih (height + 2)))
      (climb_of_takes (n := 2) (k := height + 1) rfl (ihrest height))
  | start _ _ _ ih ihrest =>
    exact climb_trans (climb_of_takes (n := 0) rfl (ih height)) (ihrest height)
  | noSteps => rfl
  | steps _ _ ih ihrest =>
    exact climb_trans (climb_of_takes rfl (ih height)) (ihrest height)
  | plain => rfl
  | indexed _ ih => exact climb_trans (ih (height + 1)) (climb_of_takes (n := 2) rfl rfl)

theorem FieldTarget.Code.climbs {steps : List Step} {before code : List Instr} {last : Instr}
    (h : FieldTarget.Code rules table scope steps before last) (hrules : rules.Counts arity)
    (hcode : ∀ height, climb arity height code = some (height + 1)) (height : Nat) :
    climb arity (height + 1) (before ++ code ++ [last]) = some height := by
  induction h with
  | field => exact climb_trans (hcode (height + 1)) (climb_of_takes (n := 2) rfl rfl)
  | cell h =>
    exact climb_trans (climb_of_takes (n := 1) rfl
        (climb_trans (h.climbs hrules (height + 1)) (hcode (height + 2))))
      (climb_of_takes (n := 3) rfl rfl)
  | step h _ ih =>
    rw [List.append_assoc, List.append_assoc, ← List.append_assoc _ code]
    exact climb_trans (climb_of_takes (n := 1) rfl (h.climbs hrules height)) ih

/-- An assignment leaves as many operands as there were. -/
theorem Target.Code.climbs {steps : List Step} {before code : List Instr} {last : Instr}
    (h : Target.Code rules table scope steps before last) (hrules : rules.Counts arity)
    (hcode : ∀ height, climb arity height code = some (height + 1)) (height : Nat) :
    climb arity height (before ++ code ++ [last]) = some height := by
  cases h with
  | slot _ => exact climb_trans (hcode height) (climb_of_takes (n := 1) rfl rfl)
  | cell _ h =>
    exact climb_trans (climb_of_takes (n := 0) rfl
        (climb_trans (h.climbs hrules (height + 1)) (hcode (height + 2))))
      (climb_of_takes (n := 3) rfl rfl)
  | step _ h hrest =>
    rw [List.append_assoc, List.append_assoc, ← List.append_assoc _ code]
    exact climb_trans (climb_of_takes (n := 0) rfl (h.climbs hrules height))
      (hrest.climbs hrules hcode height)

end

/-! ## Places at rest -/

/-- The instruction may continue elsewhere than behind itself. -/
def Opcode.diverts : Opcode → Bool
  | .jmp | .jmpf | .ret => true
  | _ => false

/-- The places that an instruction at a place may continue at without being led there by the
operands: the target of a jump, and what is behind a jump or a return. -/
def Instr.pauses (place : Nat) (i : Instr) : List Nat :=
  i.target?.toList ++ if i.op.diverts then [place + 1] else []

/-- The places that instructions jump to, and those behind jumps and returns. -/
def pauses : Nat → List Instr → List Nat
  | _, [] => []
  | place, i :: rest => i.pauses place ++ pauses (place + 1) rest

theorem pauses_append (place : Nat) (a b : List Instr) :
    pauses place (a ++ b) = pauses place a ++ pauses (place + a.length) b := by
  induction a generalizing place with
  | nil => rfl
  | cons i a ih =>
    rw [List.cons_append, pauses, pauses, ih, List.append_assoc, List.length_cons,
      Nat.add_assoc, Nat.add_comm 1]

theorem Scope.Allows.pauses_eq {scope : Scope} {i : Instr} (h : scope.Allows i) (place : Nat) :
    i.pauses place = [] := by
  have hjump := h.not_isJump
  have hdiverts : i.op.diverts = false := by
    cases h with
    | inert h =>
      rw [Instr.isInert] at h
      cases hop : i.op <;> simp_all [Opcode.diverts]
    | load _ => rfl
  have htarget : i.target? = none := by
    rw [Instr.target?]
    split
    · rw [hjump]
      rfl
    · rfl
  rw [Instr.pauses, htarget, hdiverts]
  rfl

theorem pauses_of_allows {scope : Scope} {code : List Instr} (h : ∀ i ∈ code, scope.Allows i)
    (place : Nat) : pauses place code = [] := by
  induction code generalizing place with
  | nil => rfl
  | cons i rest ih =>
    rw [List.forall_mem_cons] at h
    rw [pauses, h.1.pauses_eq, ih h.2]
    rfl

section

variable {arity : String → Option Nat} {height start : Nat}

/-- At a place of code that begins with so many operands there are none. -/
def Rests (arity : String → Option Nat) (height start : Nat) (code : List Instr) (place : Nat) :
    Prop :=
  ∃ a b, code = a ++ b ∧ place = start + a.length ∧ climb arity height a = some 0

theorem rests_start (code : List Instr) : Rests arity 0 start code start :=
  ⟨[], code, rfl, rfl, rfl⟩

/-- What is at rest in a part is at rest in the whole, if nothing is left by what comes first. -/
theorem Rests.inside {a b c whole : List Instr} {start' place : Nat}
    (h : Rests arity 0 start' b place) (ha : climb arity height a = some 0)
    (hwhole : whole = a ++ b ++ c) (hstart : start' = start + a.length) :
    Rests arity height start whole place := by
  obtain ⟨b₁, b₂, rfl, rfl, hclimb⟩ := h
  refine ⟨a ++ b₁, b₂ ++ c, ?_, ?_, climb_trans ha hclimb⟩
  · rw [hwhole, List.append_assoc, List.append_assoc, List.append_assoc]
  · rw [hstart, List.length_append, Nat.add_assoc]

/-- The place behind a first part that leaves nothing is at rest. -/
theorem rests_behind {a b whole : List Instr} {place : Nat} (ha : climb arity height a = some 0)
    (hwhole : whole = a ++ b) (hplace : place = start + a.length) :
    Rests arity height start whole place :=
  ⟨a, b, hwhole, hplace, ha⟩

end

/-- The code leaves as many operands as there were, and there are as many at all the places that
it may jump from or to and at the marks. -/
structure Settles (arity : String → Option Nat) (start : Nat) (code : List Instr)
    (marks : List Nat) : Prop where
  /-- As many operands are left as there were. -/
  climbs : climb arity 0 code = some 0
  /-- There are as many wherever the code jumps from or to. -/
  pauses : ∀ place ∈ pauses start code, Rests arity 0 start code place
  /-- There are as many at the marks. -/
  marks : ∀ place ∈ marks, Rests arity 0 start code place

section

variable {arity : String → Option Nat} {start : Nat}

/-- Code that does not jump settles if it leaves as many operands as there were. -/
theorem settles_of_straight {code : List Instr} (hclimb : climb arity 0 code = some 0)
    (hpauses : pauses start code = []) : Settles arity start code [start] := by
  refine ⟨hclimb, ?_, ?_⟩
  · rw [hpauses]
    exact List.forall_mem_nil _
  · exact List.forall_mem_singleton.mpr (rests_start _)

theorem settles_nil (marks : List Nat) (h : ∀ place ∈ marks, place = start) :
    Settles arity start [] marks :=
  ⟨rfl, List.forall_mem_nil _, fun place hplace => h place hplace ▸ rests_start _⟩

theorem Settles.append {a b : List Instr} {marks marks' : List Nat} {mid : Nat}
    (ha : Settles arity start a marks) (hb : Settles arity mid b marks')
    (hmid : mid = start + a.length) : Settles arity start (a ++ b) (marks ++ marks') := by
  subst hmid
  have hleft : ∀ {place}, Rests arity 0 start a place → Rests arity 0 start (a ++ b) place :=
    fun h => h.inside (a := []) rfl rfl rfl
  have hright : ∀ {place}, Rests arity 0 (start + a.length) b place →
      Rests arity 0 start (a ++ b) place :=
    fun h => h.inside (c := []) ha.climbs (List.append_nil _).symm rfl
  refine ⟨climb_trans ha.climbs hb.climbs, ?_, ?_⟩
  · rw [pauses_append]
    exact List.forall_mem_append.mpr
      ⟨fun place h => hleft (ha.pauses place h), fun place h => hright (hb.pauses place h)⟩
  · exact List.forall_mem_append.mpr
      ⟨fun place h => hleft (ha.marks place h), fun place h => hright (hb.marks place h)⟩

theorem Settles.mono {code : List Instr} {marks marks' : List Nat}
    (h : Settles arity start code marks) (hmarks : ∀ place ∈ marks', place ∈ marks) :
    Settles arity start code marks' :=
  ⟨h.climbs, h.pauses, fun place hplace => h.marks place (hmarks place hplace)⟩

/-- The code of a loop settles if that of its body does. -/
theorem Settles.loop {test body : List Instr} {marks : List Nat} {stop : Nat}
    (htest : climb arity 0 test = some 1) (hpauses : Opstack.pauses start test = [])
    (hbody : Settles arity (start + test.length + 1) body marks)
    (hstop : stop = start + test.length + 1 + body.length + 1) :
    Settles arity start (test ++ .jmpf stop :: body ++ [.jmp start]) (start :: marks) := by
  have hexit : climb arity 0 (test ++ [.jmpf stop]) = some 0 :=
    climb_trans htest (climb_of_takes (n := 1) rfl rfl)
  have hwhole : test ++ .jmpf stop :: body ++ [.jmp start] =
      test ++ [.jmpf stop] ++ body ++ [.jmp start] := by simp
  have hclimb : climb arity 0 (test ++ .jmpf stop :: body ++ [.jmp start]) = some 0 := by
    rw [hwhole]
    exact climb_trans (climb_trans hexit hbody.climbs) (climb_of_takes (n := 0) rfl rfl)
  have hinside : ∀ {place}, Rests arity 0 (start + test.length + 1) body place →
      Rests arity 0 start (test ++ .jmpf stop :: body ++ [.jmp start]) place :=
    fun h => h.inside hexit hwhole (by simp; omega)
  have hlast : Rests arity 0 start (test ++ .jmpf stop :: body ++ [.jmp start]) stop :=
    rests_behind (b := []) hclimb (by simp) (by simp; omega)
  refine ⟨hclimb, ?_, List.forall_mem_cons.mpr ⟨rests_start _, fun place h =>
    hinside (hbody.marks place h)⟩⟩
  rw [pauses_append, pauses_append, hpauses, List.nil_append, Opstack.pauses]
  refine List.forall_mem_append.mpr ⟨List.forall_mem_append.mpr ⟨?_, fun place h =>
    hinside (hbody.pauses place h)⟩, ?_⟩
  -- The jumps of the loop itself lead out of it and back to its test.
  · refine List.forall_mem_cons.mpr ⟨hlast, List.forall_mem_singleton.mpr ?_⟩
    exact rests_behind hexit (hwhole.trans (List.append_assoc _ _ _)) (by simp; omega)
  · refine List.forall_mem_cons.mpr ⟨rests_start _, List.forall_mem_singleton.mpr ?_⟩
    have hend : start + (test ++ .jmpf stop :: body).length + 1 = stop := by
      simp
      omega
    rw [hend]
    exact hlast

/-- The code of a choice settles if those of its two sides do. -/
theorem Settles.choice {test body rest : List Instr} {marks marks' : List Nat} {other stop : Nat}
    (htest : climb arity 0 test = some 1) (hpauses : Opstack.pauses start test = [])
    (hbody : Settles arity (start + test.length + 1) body marks)
    (hother : other = start + test.length + 1 + body.length + 1)
    (hrest : Settles arity other rest marks') (hstop : stop = other + rest.length) :
    Settles arity start (test ++ .jmpf other :: body ++ .jmp stop :: rest) (marks ++ marks') := by
  have hexit : climb arity 0 (test ++ [.jmpf other]) = some 0 :=
    climb_trans htest (climb_of_takes (n := 1) rfl rfl)
  have hside : climb arity 0 (test ++ [.jmpf other] ++ body ++ [.jmp stop]) = some 0 :=
    climb_trans (climb_trans hexit hbody.climbs) (climb_of_takes (n := 0) rfl rfl)
  have hwhole : test ++ .jmpf other :: body ++ .jmp stop :: rest =
      test ++ [.jmpf other] ++ body ++ [.jmp stop] ++ rest := by simp
  have hclimb : climb arity 0 (test ++ .jmpf other :: body ++ .jmp stop :: rest) = some 0 := by
    rw [hwhole]
    exact climb_trans hside hrest.climbs
  have hleft : ∀ {place}, Rests arity 0 (start + test.length + 1) body place →
      Rests arity 0 start (test ++ .jmpf other :: body ++ .jmp stop :: rest) place :=
    fun h => h.inside (c := .jmp stop :: rest) hexit (by simp) (by simp; omega)
  have hright : ∀ {place}, Rests arity 0 other rest place →
      Rests arity 0 start (test ++ .jmpf other :: body ++ .jmp stop :: rest) place :=
    fun h => h.inside (c := []) hside (by simp) (by simp; omega)
  refine ⟨hclimb, ?_, List.forall_mem_append.mpr ⟨fun place h => hleft (hbody.marks place h),
    fun place h => hright (hrest.marks place h)⟩⟩
  rw [pauses_append, pauses_append, hpauses, List.nil_append, Opstack.pauses, Opstack.pauses]
  have hmid : start + (test ++ .jmpf other :: body).length + 1 = other := by
    simp
    omega
  refine List.forall_mem_append.mpr ⟨List.forall_mem_append.mpr ⟨?_, fun place h =>
    hleft (hbody.pauses place h)⟩, List.forall_mem_append.mpr ⟨?_, fun place h =>
    hright (hrest.pauses place (hmid ▸ h))⟩⟩
  -- The jumps of the choice itself lead to the other side and behind it.
  · refine List.forall_mem_cons.mpr ⟨hright (rests_start _), List.forall_mem_singleton.mpr ?_⟩
    exact rests_behind (b := body ++ .jmp stop :: rest) hexit (by simp) (by simp; omega)
  · refine List.forall_mem_cons.mpr ⟨?_, List.forall_mem_singleton.mpr ?_⟩
    · exact rests_behind (b := []) hclimb (by simp) (by simp; omega)
    · rw [hmid]
      exact hright (rests_start _)

end

section

variable {rules : Rules} {arity : String → Option Nat} {table : RecordTable} {start : Nat}
  {scope scope' : Scope} {code : List Instr} {marks : List Nat}

theorem climb_countingCode (name : String) (slot : Nat) :
    climb arity 0 (countingCode name slot) = some 0 :=
  climb_of_takes (n := 0) rfl (climb_of_takes (n := 0) rfl (climb_of_takes (n := 2) (k := 0)
    rfl (climb_of_takes (n := 1) (k := 0) rfl rfl)))

/-- **A statement leaves as many operands as there were**, and there are as many wherever it jumps
from or to, behind each `RET`, and where a statement in it begins or ends. -/
theorem Clause.Code.settles {clause : Clause}
    (h : Clause.Code rules table start scope clause code scope' marks)
    (hrules : rules.Counts arity) : Settles arity start code marks := by
  induction h with
  | @ret start _ _ code h =>
    have hclimb : climb arity 0 (code ++ [.plain .ret]) = some 0 :=
      climb_trans (h.climbs hrules 0) (climb_of_takes (n := 1) (k := 0) rfl rfl)
    refine ⟨hclimb, ?_, List.forall_mem_singleton.mpr (rests_start _)⟩
    rw [pauses_append, pauses_of_allows h.allows]
    exact List.forall_mem_singleton.mpr (rests_behind (b := []) hclimb (by simp) (by simp; omega))
  | declare h =>
    exact settles_of_straight (climb_trans (h.climbs hrules 0) (climb_of_takes (n := 1) rfl rfl))
      (by rw [pauses_append, pauses_of_allows h.allows]; rfl)
  | declareNull =>
    exact settles_of_straight
      (climb_of_takes (n := 0) rfl (climb_of_takes (n := 1) (k := 0) rfl rfl)) rfl
  | assign ht h =>
    refine settles_of_straight (ht.climbs hrules (fun height => h.climbs hrules height) 0) ?_
    rw [pauses_append, pauses_append, pauses_of_allows ht.allows, pauses_of_allows h.allows]
    rcases ht.last_eq with ⟨l, _, rfl⟩ | ⟨field, rfl⟩ | rfl <;> rfl
  | whileLoop ht _ ih =>
    exact .loop (ht.climbs hrules 0) (pauses_of_allows ht.allows _) ih rfl
  | @forLoop start scope _ name _ _ _ init bound code _ hi hl _ ih =>
    have hinit : Settles arity start (init ++ [.store scope.slotCount]) [start] :=
      settles_of_straight (climb_trans (hi.climbs hrules 0) (climb_of_takes (n := 1) rfl rfl))
        (by rw [pauses_append, pauses_of_allows hi.allows]; rfl)
    have htest : climb arity 0
        (.load scope.slotCount :: bound ++ [.plain (.binary .cmple)]) = some 1 :=
      climb_trans (climb_of_takes (n := 0) rfl (hl.climbs hrules 1))
        (climb_of_takes (n := 2) (k := 0) rfl rfl)
    have hpauses : pauses (start + init.length + 1)
        (.load scope.slotCount :: bound ++ [.plain (.binary .cmple)]) = [] := by
      rw [pauses_append, pauses, pauses_of_allows hl.allows]
      rfl
    have hlength : (Instr.load scope.slotCount :: bound ++ [Instr.plain (.binary .cmple)]).length =
        bound.length + 2 := by simp
    have hbody : Settles arity (start + init.length + 1 + (bound.length + 2) + 1)
        (code ++ countingCode name scope.slotCount) _ :=
      ih.append (settles_of_straight (climb_countingCode _ _) rfl) rfl
    have hloop : Settles arity (start + init.length + 1)
        (.load scope.slotCount :: bound ++ [.plain (.binary .cmple)] ++
          .jmpf (start + init.length + 1 + (bound.length + 2) + 1 + code.length + 4 + 1) ::
            (code ++ countingCode name scope.slotCount) ++ [.jmp (start + init.length + 1)]) _ :=
      .loop htest hpauses (by rw [hlength]; exact hbody) (by simp; omega)
    have hwhole := hinit.append hloop (by simp; omega)
    rw [List.append_assoc] at hwhole
    simp only [List.append_assoc, List.cons_append, List.nil_append] at hwhole ⊢
    refine hwhole.mono ?_
    intro place hplace
    simp only [List.mem_cons, List.mem_append] at hplace ⊢
    rcases hplace with rfl | hplace
    · exact .inl rfl
    · exact .inr (.inr (.inl hplace))
  | branch _ ih => exact ⟨ih.climbs, ih.pauses, List.forall_mem_cons.mpr ⟨rests_start _, ih.marks⟩⟩
  | next _ ih | orElse _ ih => exact ih
  | call hcall h =>
    refine settles_of_straight (climb_trans (climb_trans (h.climbs hrules 0)
      (hrules _ _ 0 hcall)) (climb_of_takes (n := 1) rfl rfl)) ?_
    rw [pauses_append, pauses_append, pauses_of_allows h.allows,
      pauses_of_allows (allows_callCode scope _)]
    rfl
  | nil => exact settles_nil _ (by simp)
  | noNext | noElse => exact settles_nil _ (by simp)
  | cons _ _ ih ih' => exact ih.append ih' rfl
  | arm _ ht _ _ _ ihb ihn ihe =>
    have hchoice := Settles.choice (ht.climbs hrules 0) (pauses_of_allows ht.allows _) ihb rfl
      (ihn.append ihe rfl) rfl
    rw [List.append_assoc, List.append_assoc, List.cons_append]
    simpa [Nat.add_assoc] using hchoice

end

/-! ## Functions -/

theorem climb_storeCode (arity : String → Option Nat) (slot n : Nat) :
    climb arity n (storeCode slot n) = some 0 := by
  induction n generalizing slot with
  | zero => rfl
  | succ n ih => exact climb_of_takes (n := 1) rfl (ih (slot + 1))

theorem pauses_storeCode (place slot n : Nat) : pauses place (storeCode slot n) = [] := by
  induction n generalizing place slot with
  | zero => rfl
  | succ n ih => exact ih _ _

theorem settles_endCode (arity : String → Option Nat) (start : Nat) (body : List Stmt) :
    Settles arity start (endCode body) [] := by
  rw [endCode]
  split
  · exact settles_nil _ (List.forall_mem_nil _)
  · have hclimb : climb arity 0
        [(Instr.push .null).withComment "implicit return", Instr.plain .ret] = some 0 :=
      climb_of_takes (n := 0) (k := 0) rfl (climb_of_takes (n := 1) (k := 0) rfl rfl)
    refine ⟨hclimb, List.forall_mem_singleton.mpr ?_, List.forall_mem_nil _⟩
    exact rests_behind (b := []) hclimb rfl rfl

/-- The height is known in front of every instruction of the code of a routine that is entered
with so many operands, and the code is at rest wherever it jumps from or to and at the marks. -/
structure Levels (arity : String → Option Nat) (height : Nat) (code : List Instr)
    (marks : List Nat) : Prop where
  /-- There are always enough operands. -/
  climbs : ∃ last, climb arity height code = some last
  /-- The code is at rest wherever it jumps from or to. -/
  pauses : ∀ place ∈ pauses 0 code, climb arity height (code.take place) = some 0
  /-- The code is at rest at the marks. -/
  marks : ∀ place ∈ marks, climb arity height (code.take place) = some 0

theorem Rests.climb_take {arity : String → Option Nat} {height place : Nat} {code : List Instr}
    (h : Rests arity height 0 code place) : climb arity height (code.take place) = some 0 := by
  obtain ⟨a, b, rfl, rfl, hclimb⟩ := h
  rw [Nat.zero_add, List.take_left]
  exact hclimb

/-- **The heights of a function**: it is entered with its arguments, and at rest in front of each
of its statements. -/
theorem Function.levels {f : Function} {table : RecordTable} {code : List Instr} {rules : Rules}
    {arity : String → Option Nat} (h : f.code table = .ok code)
    (ho : Stmt.allObey rules f.body = true) (hrules : rules.Counts arity) :
    Levels arity f.params.length code (f.marks table) := by
  obtain ⟨body, scope', rfl, hbody⟩ := Function.code_eq_ok h ho
  have hsettles := (hbody.settles hrules).append (settles_endCode arity _ f.body) rfl
  have hstores := climb_storeCode arity 0 f.params.length
  have hwhole : storeCode 0 f.params.length ++ body ++ endCode f.body =
      storeCode 0 f.params.length ++ (body ++ endCode f.body) ++ [] := by simp
  have hrests : ∀ {place},
      Rests arity 0 f.params.length (body ++ endCode f.body) place →
      climb arity f.params.length
        ((storeCode 0 f.params.length ++ body ++ endCode f.body).take place) = some 0 :=
    fun h => (h.inside hstores hwhole (by simp)).climb_take
  refine ⟨⟨0, ?_⟩, ?_, ?_⟩
  · rw [hwhole, List.append_nil]
    exact climb_trans hstores hsettles.climbs
  · intro place hplace
    rw [List.append_assoc, pauses_append, pauses_storeCode, List.nil_append, Nat.zero_add,
      length_storeCode] at hplace
    exact hrests (hsettles.pauses place hplace)
  · intro place hplace
    exact hrests (hsettles.marks place (List.mem_append_left _ hplace))

/-! ## Programs -/

variable {arity : String → Option Nat}

theorem builtin?_eq_none {name : String} (h : builtinArity? name = none) :
    builtin? name = none := by
  unfold builtinArity? at h
  unfold builtin?
  split <;> simp_all

/-- A builtin takes its arguments and leaves one operand. -/
theorem climb_builtin {name : String} {n : Nat} (h : builtinArity? name = some n) (height : Nat) :
    climb arity (height + n) (callCode name) = some (height + 1) := by
  have hone : ∀ {op : Opcode}, (Instr.plain op).takes arity = some n → (Instr.plain op).leaves = 1 →
      climb arity (height + n) [Instr.plain op] = some (height + 1) :=
    fun htakes hleaves => climb_of_takes htakes (by rw [hleaves]; rfl)
  unfold builtinArity? at h
  split at h <;> cases h
  · exact climb_of_takes (n := 1) rfl (climb_of_takes (n := 0) rfl rfl)
  · exact climb_of_takes (n := 1) rfl (climb_of_takes (n := 0) rfl
      (climb_of_takes (n := 1) (k := height) rfl (climb_of_takes (n := 0) rfl rfl)))
  all_goals exact hone rfl rfl

namespace Program

variable (p : Program)

/-- The number of arguments that a call of a function takes. -/
def calleeArity? (name : String) : Option Nat :=
  (p.function? name).map fun f => f.params.length

variable {p}

/-- The calls that the rules allow take as many operands as they are given. -/
theorem callRules_counts : p.callRules.Counts p.calleeArity? := by
  intro name n height h
  change (p.arity? name == some n) = true at h
  rw [beq_iff_eq, arity?] at h
  cases hb : builtinArity? name with
  | none =>
    rw [hb] at h
    rw [callCode, builtin?_eq_none hb]
    exact climb_of_takes (n := n) h rfl
  | some k =>
    rw [hb] at h
    cases h
    exact climb_builtin hb height

end Program

end Opstack
