import Opstack.Proofs.Lowering.Jumps

/-!
# Where variables live

A variable lives in a stretch of code: from the `STORE` that gives it its first value up to the end
of its block.  No jump from outside leads into the stretch (`Stretch`), so whoever gets there has
come past that `STORE`.  `Clause.Code.guarded` says that each `LOAD` of a statement lies in such a
stretch for its slot, unless the slot belongs to a variable of a block around the statement, and
`Function.guarded` that in a whole function there is no exception.
-/

set_option autoImplicit false

namespace Opstack

/-! ## Instructions and their places -/

/-- The instruction stands at the place, in code that begins at another. -/
def At : Nat → List Instr → Nat → Instr → Prop
  | _, [], _, _ => False
  | start, j :: rest, place, i => (place = start ∧ i = j) ∨ At (start + 1) rest place i

section

variable {start place : Nat} {a b c code : List Instr} {i j : Instr}

@[simp] theorem at_nil : At start [] place i ↔ False := Iff.rfl

@[simp] theorem at_cons :
    At start (j :: code) place i ↔ (place = start ∧ i = j) ∨ At (start + 1) code place i :=
  Iff.rfl

theorem at_append :
    At start (a ++ b) place i ↔ At start a place i ∨ At (start + a.length) b place i := by
  induction a generalizing start with
  | nil => simp
  | cons j a ih =>
    rw [List.cons_append, at_cons, at_cons, ih, or_assoc, List.length_cons, Nat.add_assoc,
      Nat.add_comm 1]

theorem At.bounds (h : At start code place i) : start ≤ place ∧ place < start + code.length := by
  induction code generalizing start with
  | nil => exact h.elim
  | cons j rest ih =>
    rcases h with ⟨rfl, -⟩ | h
    · exact ⟨Nat.le_refl _, by simp⟩
    · have := ih h
      rw [List.length_cons]
      omega

theorem At.mem (h : At start code place i) : i ∈ code := by
  induction code generalizing start with
  | nil => exact h.elim
  | cons j rest ih =>
    rcases h with ⟨-, rfl⟩ | h
    · exact List.mem_cons_self
    · exact List.mem_cons_of_mem _ (ih h)

theorem at_iff_getElem? {index : Nat} :
    At start code (start + index) i ↔ code[index]? = some i := by
  induction code generalizing start index with
  | nil => simp
  | cons j rest ih =>
    cases index with
    | zero =>
      rw [at_cons]
      constructor
      · rintro (⟨-, rfl⟩ | h)
        · rfl
        · have := h.bounds
          omega
      · intro h
        cases h
        exact .inl ⟨rfl, rfl⟩
    | succ index =>
      rw [at_cons, ← Nat.add_assoc, Nat.add_right_comm, ih, List.getElem?_cons_succ]
      constructor
      · rintro (⟨h, -⟩ | h)
        · omega
        · exact h
      · exact .inr

end

/-! ## Stretches -/

/-- No jump of the code leads strictly between two places. -/
def Avoids (low high : Nat) (code : List Instr) : Prop :=
  ∀ i ∈ code, i.op.isJump = true → ∀ target, i.arg = some (.target target) →
    target ≤ low ∨ high ≤ target

/-- A stretch of code that begins behind a `STORE` to a slot and is entered only from there. -/
structure Stretch (start : Nat) (code : List Instr) (slot low high : Nat) : Prop where
  /-- The `STORE` comes right before it. -/
  store : ∃ i, At start code low i ∧ i.op = .store ∧ i.arg = some (.slot slot)
  /-- Jumps that lead into it come from it. -/
  closed : ∀ place i target, At start code place i → i.op.isJump = true →
    i.arg = some (.target target) → low < target → target < high → low < place ∧ place < high

/-- Each `LOAD` of the code is from one of the given slots, or in a stretch for its slot. -/
def Guarded (start : Nat) (slots : List Nat) (code : List Instr) : Prop :=
  ∀ place i slot, At start code place i → i.op = .load → i.arg = some (.slot slot) →
    slot ∈ slots ∨ ∃ low high, Stretch start code slot low high ∧ low < place ∧ place < high ∧
      high ≤ start + code.length

section

variable {start : Nat} {slots : List Nat} {a b c code : List Instr}

theorem Avoids.of_within {low high low' high' : Nat} (h : JumpsWithin low' high' code)
    (hout : high' ≤ low ∨ high ≤ low') : Avoids low high code := by
  intro i hi hjump target harg
  obtain ⟨target', harg', h₁, h₂⟩ := h i hi hjump
  rw [harg, Option.some.injEq, Operand.target.injEq] at harg'
  omega

theorem Avoids.append {low high : Nat} (ha : Avoids low high a) (hb : Avoids low high b) :
    Avoids low high (a ++ b) :=
  List.forall_mem_append.mpr ⟨ha, hb⟩

theorem Avoids.cons {low high : Nat} {i : Instr} (hi : ∀ target, i.arg = some (.target target) →
    target ≤ low ∨ high ≤ target) (h : Avoids low high code) : Avoids low high (i :: code) :=
  List.forall_mem_cons.mpr ⟨fun _ => hi, h⟩

theorem avoids_nil {low high : Nat} : Avoids low high [] := List.forall_mem_nil _

/-- A stretch of a part is one of the whole, if no jump of the rest leads into the part. -/
theorem Stretch.inside {start' slot low high : Nat} (h : Stretch start' b slot low high)
    (hhigh : high ≤ start' + b.length) (hstart : start' = start + a.length)
    (ha : Avoids start' (start' + b.length) a) (hc : Avoids start' (start' + b.length) c) :
    Stretch start (a ++ b ++ c) slot low high := by
  obtain ⟨⟨i, hi, hop, harg⟩, hclosed⟩ := h
  have hlow := hi.bounds
  refine ⟨⟨i, ?_, hop, harg⟩, ?_⟩
  · rw [at_append, at_append]
    exact .inl (.inr (hstart ▸ hi))
  · intro place j target hj hjump htarget hlt hgt
    rw [at_append, at_append, ← hstart] at hj
    rcases hj with (hj | hj) | hj
    · have := ha j hj.mem hjump target htarget
      omega
    · exact hclosed place j target hj hjump htarget hlt hgt
    · have := hc j hj.mem hjump target htarget
      omega

theorem Guarded.mono {slots' : List Nat} (h : Guarded start slots code)
    (hs : ∀ s ∈ slots, s ∈ slots') : Guarded start slots' code := fun place i slot hat hop harg =>
  (h place i slot hat hop harg).imp_left (hs slot)

/-- Code of expressions loads from the variables in scope. -/
theorem guarded_of_allows {scope : Scope} (h : ∀ i ∈ code, scope.Allows i) :
    Guarded start (scope.locals.map Local.slot) code := by
  intro place i slot hat hop harg
  refine .inl ?_
  cases h i hat.mem with
  | inert hi =>
    rw [Instr.isInert, hop] at hi
    cases hi
  | load hl =>
    cases harg
    exact List.mem_map_of_mem hl

/-- Code that does not load anything. -/
theorem guarded_of_not_load (h : ∀ i ∈ code, i.op ≠ .load) : Guarded start slots code :=
  fun _ i _ hat hop _ => absurd hop (h i hat.mem)

theorem Guarded.append {mid : Nat} (ha : Guarded start slots a) (hb : Guarded mid slots b)
    (hmid : mid = start + a.length) (hab : Avoids mid (mid + b.length) a)
    (hba : Avoids start mid b) : Guarded start slots (a ++ b) := by
  intro place i slot hat hop harg
  rw [at_append, ← hmid] at hat
  rcases hat with hat | hat
  · refine (ha place i slot hat hop harg).imp_right ?_
    rintro ⟨low, high, hstretch, hlow, hhigh, hend⟩
    have hwhole := hstretch.inside (a := []) (c := b) hend rfl avoids_nil (hmid ▸ hba)
    refine ⟨low, high, hwhole, hlow, hhigh, ?_⟩
    rw [List.length_append]
    omega
  · refine (hb place i slot hat hop harg).imp_right ?_
    rintro ⟨low, high, hstretch, hlow, hhigh, hend⟩
    have hwhole := hstretch.inside (c := []) hend hmid hab avoids_nil
    rw [List.append_nil] at hwhole
    refine ⟨low, high, hwhole, hlow, hhigh, ?_⟩
    rw [List.length_append]
    omega

/-- A declared variable lives up to the end of the code behind its `STORE`. -/
theorem Guarded.declare {mid slot : Nat} (ha : Guarded start slots a)
    (hmid : mid = start + a.length + 1) (hb : Guarded mid (slot :: slots) b)
    (hja : ∀ i ∈ a, i.op.isJump = false) (hjb : JumpsWithin mid (mid + b.length) b) :
    Guarded start slots (a ++ .store slot :: b) := by
  have hlength : (a ++ .store slot :: b).length = a.length + 1 + b.length := by
    simp
    omega
  have hnone : Avoids mid (mid + b.length) (a ++ [.store slot]) := by
    intro i hi hjump
    rcases List.mem_append.mp hi with hi | hi
    · rw [hja i hi] at hjump
      cases hjump
    · cases List.mem_singleton.mp hi
      cases hjump
  -- The stretch of the new variable is all that follows.
  have hnew : Stretch start (a ++ .store slot :: b) slot (start + a.length)
      (start + (a ++ .store slot :: b).length) := by
    refine ⟨⟨.store slot, ?_, rfl, rfl⟩, ?_⟩
    · rw [at_append, at_cons]
      exact .inr (.inl ⟨rfl, rfl⟩)
    · intro place i target hat hjump harg _ _
      rw [at_append, at_cons] at hat
      rcases hat with hat | ⟨rfl, rfl⟩ | hat
      · rw [hja i hat.mem] at hjump
        cases hjump
      · cases hjump
      · have := hat.bounds
        omega
  intro place i slot' hat hop harg
  rw [at_append, at_cons] at hat
  rcases hat with hat | ⟨rfl, rfl⟩ | hat
  · refine (ha place i slot' hat hop harg).imp_right ?_
    rintro ⟨low, high, hstretch, hlow, hhigh, hend⟩
    have hout : Avoids start (start + a.length) (.store slot :: b) :=
      .cons (fun _ h => by cases h) (.of_within hjb (by omega))
    refine ⟨low, high, hstretch.inside (a := []) hend rfl avoids_nil hout, hlow, hhigh, ?_⟩
    omega
  · cases hop
  · rw [← hmid] at hat
    have hbounds := hat.bounds
    rcases hb place i slot' hat hop harg with hslot | ⟨low, high, hstretch, hlow, hhigh, hend⟩
    · rcases List.mem_cons.mp hslot with rfl | hslot
      · exact .inr ⟨_, _, hnew, by omega, by omega, Nat.le_refl _⟩
      · exact .inl hslot
    · have hwhole := hstretch.inside (a := a ++ [.store slot]) (c := []) hend
        (show mid = start + (a ++ [Instr.store slot]).length by simp; omega) hnone avoids_nil
      rw [List.append_nil, List.append_assoc] at hwhole
      exact .inr ⟨low, high, hwhole, hlow, hhigh, by omega⟩

/-- Behind code may come any other instruction that does not load and does not jump into it. -/
theorem Guarded.snoc {i : Instr} (h : Guarded start slots a) (hop : i.op ≠ .load)
    (harg : ∀ target, i.arg = some (.target target) →
      target ≤ start ∨ start + a.length ≤ target) :
    Guarded start slots (a ++ [i]) := by
  refine h.append (guarded_of_not_load (List.forall_mem_singleton.mpr hop)) rfl ?_
    (.cons harg avoids_nil)
  intro j hj hjump target htarget
  rw [List.length_singleton]
  omega

theorem Avoids.of_not_isJump {low high : Nat} (h : ∀ i ∈ code, i.op.isJump = false) :
    Avoids low high code := by
  intro i hi hjump
  rw [h i hi] at hjump
  cases hjump

/-- The loads of a loop are guarded if those of its test and body are. -/
theorem Guarded.loop {test body : List Instr} {stop : Nat}
    (ht : Guarded start slots test) (hjt : ∀ i ∈ test, i.op.isJump = false)
    (hb : Guarded (start + test.length + 1) slots body)
    (hjb : JumpsWithin (start + test.length + 1) (start + test.length + 1 + body.length) body)
    (hstop : stop = start + test.length + 1 + body.length + 1) :
    Guarded start slots (test ++ .jmpf stop :: body ++ [.jmp start]) := by
  have hexit : Guarded start slots (test ++ [.jmpf stop]) :=
    ht.snoc (by simp [Instr.jmpf]) fun target h => by cases h; omega
  have hround : Guarded start slots (test ++ [.jmpf stop] ++ body) := by
    refine hexit.append hb (by simp; omega) (.append (.of_not_isJump hjt) (.cons ?_ avoids_nil))
      (.of_within hjb (by omega))
    intro target h
    cases h
    omega
  rw [← List.singleton_append (l := body), ← List.append_assoc test]
  exact hround.snoc (by simp [Instr.jmp]) fun target h => by cases h; omega

/-- The loads of a choice are guarded if those of its test and its two sides are. -/
theorem Guarded.choice {test body rest : List Instr} {other stop : Nat}
    (ht : Guarded start slots test) (hjt : ∀ i ∈ test, i.op.isJump = false)
    (hb : Guarded (start + test.length + 1) slots body)
    (hjb : JumpsWithin (start + test.length + 1) (start + test.length + 1 + body.length) body)
    (hother : other = start + test.length + 1 + body.length + 1)
    (hr : Guarded other slots rest) (hjr : JumpsWithin other (other + rest.length) rest)
    (hstop : stop = other + rest.length) :
    Guarded start slots (test ++ .jmpf other :: body ++ .jmp stop :: rest) := by
  have hexit : Guarded start slots (test ++ [.jmpf other]) :=
    ht.snoc (by simp [Instr.jmpf]) fun target h => by cases h; omega
  have hside : Guarded start slots (test ++ [.jmpf other] ++ body) := by
    refine hexit.append hb (by simp; omega) (.append (.of_not_isJump hjt) (.cons ?_ avoids_nil))
      (.of_within hjb (by omega))
    intro target h
    cases h
    omega
  have hleft : Guarded start slots (test ++ [.jmpf other] ++ body ++ [.jmp stop]) :=
    hside.snoc (by simp [Instr.jmp]) fun target h => by cases h; simp; omega
  have hwhole : test ++ .jmpf other :: body ++ .jmp stop :: rest =
      test ++ [.jmpf other] ++ body ++ [.jmp stop] ++ rest := by simp
  have hmid : other =
      start + (test ++ [Instr.jmpf other] ++ body ++ [Instr.jmp stop]).length := by
    simp
    omega
  rw [hwhole]
  refine hleft.append hr hmid (.append (.append (.append (.of_not_isJump hjt)
    (.cons ?_ avoids_nil)) (.of_within hjb (by omega))) (.cons ?_ avoids_nil))
    (.of_within hjr (by omega))
  · intro target h
    cases h
    exact .inl (Nat.le_refl _)
  · intro target h
    cases h
    omega

end

section

variable {rules : Rules} {table : RecordTable} {start : Nat} {scope scope' : Scope}
  {code : List Instr} {marks : List Nat}

theorem guarded_countingCode {slots : List Nat} (start : Nat) (name : String) (slot : Nat)
    (h : slot ∈ slots) : Guarded start slots (countingCode name slot) := by
  intro place i slot' hat hop harg
  have hmem := hat.mem
  simp only [countingCode, List.mem_cons, List.not_mem_nil, or_false] at hmem
  rcases hmem with rfl | rfl | rfl | rfl
  · cases harg
    exact .inl h
  all_goals cases hop

/-- **Each load of a statement is guarded**: its slot belongs to a variable of a block around the
statement, or it lies in the stretch of a variable that the statement declares. -/
theorem Clause.Code.guarded {clause : Clause}
    (h : Clause.Code rules table start scope clause code scope' marks) :
    Guarded start (scope.locals.map Local.slot) code := by
  induction h with
  | ret h => exact (guarded_of_allows h.allows).snoc (by simp [Instr.plain]) fun _ h => by cases h
  | declare h =>
    exact (guarded_of_allows h.allows).snoc (by simp [Instr.store]) fun _ h => by cases h
  | declareNull => exact guarded_of_not_load (by simp [Instr.push, Instr.store])
  | assign ht h =>
    have hcode := List.forall_mem_append.mpr ⟨ht.allows, h.allows⟩
    rcases ht.last_eq with ⟨l, _, rfl⟩ | ⟨field, rfl⟩ | rfl
    all_goals
      refine (guarded_of_allows hcode).snoc ?_ fun _ h => by cases h
      simp [Instr.store, Instr.setf, Instr.plain]
  | whileLoop ht hb ih =>
    exact .loop (guarded_of_allows ht.allows) (fun i hi => (ht.allows i hi).not_isJump) ih
      hb.jumpsWithin rfl
  | @forLoop start scope _ name _ _ _ init bound code _ hi hl hb ih =>
    have htest : ∀ i ∈ .load scope.slotCount :: bound ++ [.plain (.binary .cmple)],
        (scope.enter.extend name).Allows i :=
      List.forall_mem_append.mpr ⟨List.forall_mem_cons.mpr
        ⟨.load (l := ⟨name, _, scope.slotCount⟩) List.mem_cons_self, hl.allows⟩,
        List.forall_mem_singleton.mpr (.inert rfl)⟩
    have hlength : (Instr.load scope.slotCount :: bound ++ [Instr.plain (.binary .cmple)]).length =
        bound.length + 2 := by simp
    have hround : JumpsWithin (start + init.length + 1 + (bound.length + 2) + 1)
        (start + init.length + 1 + (bound.length + 2) + 1 +
          (code ++ countingCode name scope.slotCount).length)
        (code ++ countingCode name scope.slotCount) :=
      jumpsWithin_append.mpr ⟨hb.jumpsWithin.mono (Nat.le_refl _) (by simp),
        jumpsWithin_countingCode _ _ _ _⟩
    have hbody : Guarded (start + init.length + 1 + (bound.length + 2) + 1)
        (scope.slotCount :: scope.locals.map Local.slot)
        (code ++ countingCode name scope.slotCount) :=
      ih.append (guarded_countingCode _ _ _ List.mem_cons_self) rfl
        (.of_within hb.jumpsWithin (by omega))
        (.of_within (jumpsWithin_countingCode 0 0 _ _) (by omega))
    have hloop : Guarded (start + init.length + 1) (scope.slotCount :: scope.locals.map Local.slot)
        (.load scope.slotCount :: bound ++ [.plain (.binary .cmple)] ++
          .jmpf (start + init.length + 1 + (bound.length + 2) + 1 + code.length + 4 + 1) ::
            (code ++ countingCode name scope.slotCount) ++ [.jmp (start + init.length + 1)]) :=
      .loop (guarded_of_allows htest) (fun i hi => (htest i hi).not_isJump)
      (by rw [hlength]; exact hbody) (by rw [hlength]; exact hround) (by simp; omega)
    have hjumps : JumpsWithin (start + init.length + 1)
        (start + init.length + 1 + (bound.length + 2) + 1 + code.length + 4 + 1)
        (.load scope.slotCount :: bound ++ [.plain (.binary .cmple)] ++
          .jmpf (start + init.length + 1 + (bound.length + 2) + 1 + code.length + 4 + 1) ::
            (code ++ countingCode name scope.slotCount) ++ [.jmp (start + init.length + 1)]) :=
      .loop (jumpsWithin_of_allows htest) (by rw [hlength]; exact hround) (by simp; omega)
    have hwhole := Guarded.declare (guarded_of_allows hi.allows) rfl hloop
      (fun i h => (hi.allows i h).not_isJump) (hjumps.mono (Nat.le_refl _) (by simp; omega))
    simpa using hwhole
  | branch _ ih | next _ ih | orElse _ ih => exact ih
  | call _ h =>
    exact (guarded_of_allows (List.forall_mem_append.mpr
      ⟨h.allows, allows_callCode _ _⟩)).snoc (by simp [dropResult, Instr.plain, Instr.withComment])
        fun _ h => by cases h
  | nil | noNext | noElse => exact guarded_of_not_load (List.forall_mem_nil _)
  | @cons start scope mid _ s _ code later _ _ h hrest ih ih' =>
    by_cases hs : (Clause.stmt s).declares = true
    · -- The rest of the block is the stretch of the new variable.
      cases h with
      | declare h =>
        rw [List.append_assoc]
        refine .declare (guarded_of_allows h.allows) (by simp; omega) ih'
          (fun i hi => (h.allows i hi).not_isJump) hrest.jumpsWithin
      | declareNull =>
        refine .declare (a := [.push .null]) (guarded_of_not_load (by simp [Instr.push])) rfl ih'
          (List.forall_mem_singleton.mpr rfl) hrest.jumpsWithin
      | _ => cases hs
    · have hlocals := h.locals_eq (Bool.eq_false_iff.mpr hs)
      rw [hlocals] at ih'
      exact ih.append ih' rfl (.of_within h.jumpsWithin (by omega))
        (.of_within hrest.jumpsWithin (by omega))
  | arm _ ht hb hn he ihb ihn ihe =>
    rw [hn.locals_eq rfl] at ihe
    have hrest := ihn.append ihe rfl (.of_within hn.jumpsWithin (by omega))
      (.of_within he.jumpsWithin (by omega))
    have hjrest := jumpsWithin_append.mpr
      ⟨hn.jumpsWithin.mono (Nat.le_refl _) (Nat.le_add_right _ _),
      he.jumpsWithin.mono (Nat.le_add_right _ _) (Nat.le_refl _)⟩
    rw [List.append_assoc, List.cons_append]
    exact .choice (guarded_of_allows ht.allows) (fun i hi => (ht.allows i hi).not_isJump) ihb
      hb.jumpsWithin rfl hrest (by rw [List.length_append, ← Nat.add_assoc]; exact hjrest)
      (by rw [List.length_append, ← Nat.add_assoc])

end

/-! ## Functions -/

/-- The parameters live up to the end of the function. -/
theorem guarded_storeCode {start n : Nat} {slots slots' : List Nat} {slot : Nat} {rest : List Instr}
    (h : Guarded (start + n) slots' rest) (hs : ∀ s ∈ slots', s ∈ slots ∨ slot ≤ s ∧ s < slot + n)
    (hj : JumpsWithin (start + n) (start + n + rest.length) rest) :
    Guarded start slots (storeCode slot n ++ rest) := by
  induction n generalizing start slot slots with
  | zero =>
    refine h.mono fun s hmem => (hs s hmem).elim id fun h => ?_
    omega
  | succ n ih =>
    have hlater : Guarded (start + 1) (slot :: slots) (storeCode (slot + 1) n ++ rest) := by
      refine ih (by rwa [Nat.add_assoc, Nat.add_comm 1]) (fun s hmem => ?_)
        (by rwa [Nat.add_assoc start, Nat.add_comm 1])
      rcases hs s hmem with h | h
      · exact .inl (List.mem_cons_of_mem _ h)
      · by_cases heq : s = slot
        · exact .inl (heq ▸ List.mem_cons_self)
        · exact .inr ⟨by omega, by omega⟩
    have hjlater : JumpsWithin (start + 1) (start + 1 + (storeCode (slot + 1) n ++ rest).length)
        (storeCode (slot + 1) n ++ rest) := by
      refine jumpsWithin_append.mpr ⟨jumpsWithin_storeCode _ _ _ _, hj.mono (by omega) ?_⟩
      rw [List.length_append, length_storeCode]
      omega
    exact Guarded.declare (a := []) (guarded_of_not_load (List.forall_mem_nil _)) rfl hlater
      (List.forall_mem_nil _) hjlater

theorem Scope.slot_lt_of_foldl (scope : Scope) (h : ∀ l ∈ scope.locals, l.slot < scope.slotCount)
    (names : List String) : ∀ l ∈ (names.foldl Scope.extend scope).locals,
      l.slot < (names.foldl Scope.extend scope).slotCount := by
  induction names generalizing scope with
  | nil => exact h
  | cons name rest ih =>
    refine ih (scope.extend name) (List.forall_mem_cons.mpr ⟨Nat.lt_succ_self _, fun l hl => ?_⟩)
    exact Nat.lt_succ_of_lt (h l hl)

/-- **Each load of a function lies in a stretch for its slot.** -/
theorem Function.guarded {f : Function} {table : RecordTable} {code : List Instr}
    (h : f.code table = .ok code) : Guarded 0 [] code := by
  obtain ⟨body, scope', rfl, hbody⟩ := Function.code_eq_ok h (Stmt.allObey_free f.body)
  have hend : ∀ (start : Nat) (slots : List Nat), Guarded start slots (endCode f.body) := by
    intro start slots
    rw [endCode]
    split
    · exact guarded_of_not_load (List.forall_mem_nil _)
    · exact guarded_of_not_load (by simp [Instr.push, Instr.plain, Instr.withComment])
  have hjend : ∀ low high, JumpsWithin low high (endCode f.body) := by
    intro low high
    rw [endCode]
    split
    · exact jumpsWithin_nil
    · exact jumpsWithin_cons_other (jumpsWithin_cons_other jumpsWithin_nil rfl) rfl
  rw [List.append_assoc]
  have hrest : Guarded (0 + f.params.length) (f.scope.locals.map Local.slot)
      (body ++ endCode f.body) := by
    rw [Nat.zero_add]
    exact hbody.guarded.append (hend _ _) rfl (.of_within hbody.jumpsWithin (by omega))
      (.of_within (hjend 0 0) (by omega))
  refine guarded_storeCode hrest ?_ ?_
  · intro s hs
    obtain ⟨l, hl, rfl⟩ := List.mem_map.mp hs
    have hlt := ({} : Scope).enter.slot_lt_of_foldl (List.forall_mem_nil _) f.params l hl
    refine .inr ⟨Nat.zero_le _, ?_⟩
    rw [Nat.zero_add, ← f.slotCount_scope]
    exact hlt
  · rw [Nat.zero_add, List.length_append]
    exact jumpsWithin_append.mpr
      ⟨hbody.jumpsWithin.mono (Nat.le_refl _) (by omega), hjend _ _⟩

end Opstack
