import Opstack.Code.Builder

/-!
# Histories of a builder

A builder is asked to emit instructions and placeholders and to patch its sites, in any order and a
site any number of times, and in the end for the finished routine.

* `Builder.serve` carries out a request, `Builder.after` is the builder after a list of them and
  `Builder.sites` the sites that it has handed out.
* `Builder.emitted` and `Builder.lastTargetFrom?` say of the list of requests alone which
  instructions it emits and where the jump at a site is pointed to last.
* `Builder.getElem?_after`: the builder has the instructions that were emitted, each with the last
  target of its site.
* `Routine.ofCode_eq_ok_iff` and `Routine.ofCode_eq_error_iff`: which instructions make a routine,
  and what is said about the others.
* `Builder.finish_of_history`: what comes of any list of requests.
-/

set_option autoImplicit false

namespace Opstack

/-! ## The check -/

/-- If the instruction is a jump, then one to an instruction of a list of so many. -/
def Instr.InOrder (length : Nat) (i : Instr) : Prop :=
  i.op.isJump = true → ∃ target, i.arg = some (.target target) ∧ target < length

/-- What is said about a jump that is not in order. -/
def JumpError.about (name : String) (index : Nat) (i : Instr) : JumpError :=
  match i.arg with
  | some (.target target) => .outOfRange name index target
  | _ => .unpatched name index

namespace Routine

variable {name : String} {length : Nat}

theorem jumpError?_of_inOrder {i : Instr} (h : i.InOrder length) (index : Nat) :
    jumpError? name length index i = none := by
  rw [jumpError?]
  split
  · rename_i hjump
    obtain ⟨target, harg, htarget⟩ := h hjump
    rw [harg]
    exact if_pos htarget
  · rfl

theorem jumpError?_of_not_inOrder {i : Instr} (h : ¬ i.InOrder length) (index : Nat) :
    jumpError? name length index i = some (.about name index i) := by
  cases hjump : i.op.isJump with
  | false => exact absurd (fun hjump' => by cases hjump.symm.trans hjump') h
  | true =>
    rw [jumpError?, if_pos hjump, JumpError.about]
    cases harg : i.arg with
    | none => rfl
    | some arg =>
      cases arg with
      | target target => exact if_neg fun htarget => h fun _ => ⟨target, harg, htarget⟩
      | _ => rfl

/-- Of several instructions at fault the first one is reported. -/
theorem firstJumpError?_eq_some_iff {start : Nat} {code : List Instr} {e : JumpError} :
    firstJumpError? name length start code = some e ↔
      ∃ index i, code[index]? = some i ∧ ¬ i.InOrder length ∧
        (∀ earlier < index, ∀ i', code[earlier]? = some i' → i'.InOrder length) ∧
        e = .about name (start + index) i := by
  induction code generalizing start with
  | nil => simp [firstJumpError?]
  | cons first rest ih =>
    rw [firstJumpError?]
    by_cases hfirst : first.InOrder length
    · rw [jumpError?_of_inOrder hfirst]
      dsimp only
      rw [ih]
      constructor
      · rintro ⟨index, i, hi, hnot, hearlier, rfl⟩
        refine ⟨index + 1, i, hi, hnot, ?_, by rw [Nat.add_right_comm]; rfl⟩
        rintro (_ | earlier) hlt i' hi'
        · cases hi'
          exact hfirst
        · exact hearlier earlier (Nat.lt_of_succ_lt_succ hlt) i' hi'
      · rintro ⟨_ | index, i, hi, hnot, hearlier, rfl⟩
        · cases hi
          exact absurd hfirst hnot
        · exact ⟨index, i, hi, hnot,
            fun earlier hlt => hearlier (earlier + 1) (Nat.succ_lt_succ hlt),
            by rw [Nat.add_right_comm]; rfl⟩
    · rw [jumpError?_of_not_inOrder hfirst]
      constructor
      · intro he
        cases he
        exact ⟨0, first, rfl, hfirst, fun _ hlt => absurd hlt (Nat.not_lt_zero _), rfl⟩
      · rintro ⟨_ | index, i, hi, hnot, hearlier, rfl⟩
        · cases hi
          rfl
        · exact absurd (hearlier 0 (Nat.succ_pos index) first rfl) hfirst

theorem firstJumpError?_eq_none_iff {start : Nat} {code : List Instr} :
    firstJumpError? name length start code = none ↔ ∀ i ∈ code, i.InOrder length := by
  induction code generalizing start with
  | nil => simp [firstJumpError?]
  | cons first rest ih =>
    rw [firstJumpError?, List.forall_mem_cons]
    by_cases hfirst : first.InOrder length
    · rw [jumpError?_of_inOrder hfirst]
      exact ih.trans (iff_and_self.mpr fun _ => hfirst)
    · rw [jumpError?_of_not_inOrder hfirst]
      exact iff_of_false (fun h => by cases h) fun h => hfirst h.1

variable {code : Array Instr}

/-- Code makes a routine if all its jumps are in order. -/
theorem ofCode_eq_ok_iff {r : Routine} :
    ofCode name code = .ok r ↔ r = ⟨name, code⟩ ∧ ∀ i ∈ code, i.InOrder code.size := by
  have hchecked : firstJumpError? name code.size 0 code.toList = none ↔
      ∀ i ∈ code, i.InOrder code.size := by
    simp only [firstJumpError?_eq_none_iff, Array.mem_toList_iff]
  rw [ofCode, ← hchecked]
  cases firstJumpError? name code.size 0 code.toList with
  | none => exact ⟨fun h => ⟨(Except.ok.inj h).symm, rfl⟩, fun h => congrArg Except.ok h.1.symm⟩
  | some e => exact iff_of_false (fun h => by cases h) fun h => by cases h.2

/-- Other code is refused because of the first jump that is not in order. -/
theorem ofCode_eq_error_iff {e : JumpError} :
    ofCode name code = .error e ↔ ∃ index i, code[index]? = some i ∧ ¬ i.InOrder code.size ∧
      (∀ earlier < index, ∀ i', code[earlier]? = some i' → i'.InOrder code.size) ∧
      e = .about name index i := by
  have hfirst : firstJumpError? name code.size 0 code.toList = some e ↔ _ :=
    firstJumpError?_eq_some_iff
  simp only [Array.getElem?_toList, Nat.zero_add] at hfirst
  rw [ofCode, ← hfirst]
  cases firstJumpError? name code.size 0 code.toList with
  | none => exact iff_of_false (fun h => by cases h) fun h => by cases h
  | some e' => exact ⟨fun h => congrArg some (Except.error.inj h),
      fun h => congrArg Except.error (Option.some.inj h)⟩

end Routine

/-! ## Requests -/

namespace Builder

/-- An operation on a builder with its arguments. -/
inductive Request
  /-- Append an instruction. -/
  | emit (i : Instr)
  /-- Append a jump with a placeholder for its target. -/
  | emitJump (op : Opcode)
  /-- Give the jump at a site its target. -/
  | patch (site : PatchSite) (target : Nat)
  /-- Point the jump at a site to the next instruction. -/
  | patchHere (site : PatchSite)
deriving DecidableEq

namespace Request

/-- The instruction that is appended. -/
def emission? : Request → Option Instr
  | .emit i => some i
  | .emitJump op => some { op, arg := some .unpatched }
  | .patch _ _ | .patchHere _ => none

/-- The site whose jump gets a target. -/
def site? : Request → Option PatchSite
  | .emit _ | .emitJump _ => none
  | .patch site _ | .patchHere site => some site

/-- The target that the jump at a site gets when so many instructions have been emitted. -/
def target? (count : Nat) (site : PatchSite) : Request → Option Nat
  | .emit _ | .emitJump _ => none
  | .patch patched target => if patched = site then some target else none
  | .patchHere patched => if patched = site then some count else none

end Request

/-- Carries out a request, and says at which site it has put a placeholder. -/
def serve (b : Builder) : Request → Option PatchSite × Builder
  | .emit i => (none, b.emit i)
  | .emitJump op => (some (b.emitJump op).2, (b.emitJump op).1)
  | .patch site target => (none, b.patch site target)
  | .patchHere site => (none, b.patchHere site)

/-- The builder after a list of requests. -/
def after (b : Builder) (requests : List Request) : Builder :=
  requests.foldl (fun b r => (b.serve r).2) b

/-- The sites that the builder hands out. -/
def sites (b : Builder) : List Request → List PatchSite
  | [] => []
  | r :: rest => (b.serve r).1.toList ++ (b.serve r).2.sites rest

/-- Only sites that are known, or that the builder hands out meanwhile, are patched. -/
def PatchesOwn (b : Builder) (known : List PatchSite) : List Request → Prop
  | [] => True
  | r :: rest => (∀ site ∈ r.site?, site ∈ known) ∧
    (b.serve r).2.PatchesOwn (known ++ (b.serve r).1.toList) rest

/-- Whether the requests patch only sites of the builder can be found out. -/
instance decidablePatchesOwn : ∀ (b : Builder) (known : List PatchSite)
    (requests : List Request), Decidable (b.PatchesOwn known requests)
  | _, _, [] => .isTrue trivial
  | b, known, r :: rest =>
    have := decidablePatchesOwn (b.serve r).2 (known ++ (b.serve r).1.toList) rest
    inferInstanceAs (Decidable ((∀ site ∈ r.site?, site ∈ known) ∧ _))

/-- The instructions that requests emit, as they are emitted. -/
def emitted (requests : List Request) : List Instr := requests.filterMap Request.emission?

/-- The target that the jump at a site gets by the last request that patches it, when so many
instructions have been emitted before the requests. -/
def lastTargetFrom? (site : PatchSite) : Nat → List Request → Option Nat
  | _, [] => none
  | count, r :: rest =>
    (lastTargetFrom? site (count + r.emission?.toList.length) rest).or (r.target? count site)

/-- The instruction with a target, if there is one for it. -/
def retarget (target? : Option Nat) (i : Instr) : Instr :=
  match target? with
  | some target => { i with arg := some (.target target) }
  | none => i

variable {b : Builder} {known : List PatchSite} {requests : List Request} {site : PatchSite}

theorem emitted_cons (r : Request) (rest : List Request) :
    emitted (r :: rest) = r.emission?.toList ++ emitted rest := by
  rw [emitted, List.filterMap_cons]
  cases r.emission? <;> rfl

theorem emitted_append (before later : List Request) :
    emitted (before ++ later) = emitted before ++ emitted later := List.filterMap_append

theorem retarget_or (target? earlier? : Option Nat) (i : Instr) :
    retarget (target?.or earlier?) i = retarget target? (retarget earlier? i) := by
  cases target? <;> cases earlier? <;> rfl

@[simp] theorem map_retarget_none (i? : Option Instr) : i?.map (retarget none) = i? := by
  cases i? <;> rfl

/-! ### Places -/

theorem nextIndex_serve (b : Builder) (r : Request) :
    (b.serve r).2.nextIndex = b.nextIndex + r.emission?.toList.length := by
  cases r with
  | emit i => exact Array.size_push i
  | emitJump op => exact Array.size_push _
  | patch site target => exact Array.size_modify
  | patchHere site => exact Array.size_modify

theorem nextIndex_after (b : Builder) (requests : List Request) :
    (b.after requests).nextIndex = b.nextIndex + (emitted requests).length := by
  induction requests generalizing b with
  | nil => rfl
  | cons r rest ih =>
    change ((b.serve r).2.after rest).nextIndex = _
    rw [ih, nextIndex_serve, emitted_cons, List.length_append, Nat.add_assoc]

/-- A site is the place of the instruction that is emitted with it. -/
theorem index_of_serve {r : Request} (h : site ∈ (b.serve r).1) :
    site.index = b.nextIndex ∧ site.index < (b.serve r).2.nextIndex := by
  cases r with
  | emitJump op =>
    obtain rfl := Option.some.inj h
    exact ⟨rfl, by rw [nextIndex_serve]; exact Nat.lt_succ_self _⟩
  | _ => cases h

theorem index_of_mem_sites (h : site ∈ b.sites requests) :
    b.nextIndex ≤ site.index ∧ site.index < (b.after requests).nextIndex := by
  induction requests generalizing b with
  | nil => cases h
  | cons r rest ih =>
    have hlater := nextIndex_after (b.serve r).2 rest
    have hnext := nextIndex_serve b r
    change _ ∧ _ < ((b.serve r).2.after rest).nextIndex
    rcases List.mem_append.mp h with h | h
    · have hindex := index_of_serve (Option.mem_toList.mp h)
      omega
    · have hindex := ih h
      omega

theorem sites_append (b : Builder) (before later : List Request) :
    b.sites (before ++ later) = b.sites before ++ (b.after before).sites later := by
  induction before generalizing b with
  | nil => rfl
  | cons r rest ih =>
    change _ ++ (b.serve r).2.sites (rest ++ later) = _
    rw [ih, ← List.append_assoc]
    rfl

/-- An instruction that is emitted without a site is at none. -/
theorem not_mem_sites_of_emit (b : Builder) (before later : List Request) (i : Instr) :
    (⟨(b.after before).nextIndex⟩ : PatchSite) ∉ b.sites (before ++ .emit i :: later) := by
  rw [sites_append, List.mem_append]
  rintro (h | h)
  · exact absurd (index_of_mem_sites h).2 (Nat.lt_irrefl _)
  · have hindex := (index_of_mem_sites (b := ((b.after before).serve (.emit i)).2) h).1
    rw [nextIndex_serve] at hindex
    exact absurd hindex (Nat.not_succ_le_self _)

/-! ### Contents -/

/-- A site that the builder has not handed out gets no target. -/
theorem lastTargetFrom?_eq_none (h : b.PatchesOwn known requests) (hknown : site ∉ known)
    (hnew : site ∉ b.sites requests) (count : Nat) :
    lastTargetFrom? site count requests = none := by
  induction requests generalizing b known count with
  | nil => rfl
  | cons r rest ih =>
    obtain ⟨hown, hrest⟩ := h
    obtain ⟨hsite, hlater⟩ := not_or.mp (mt List.mem_append.mpr hnew)
    have hother : ∀ patched ∈ r.site?, patched ≠ site := fun patched hpatched heq =>
      hknown (heq ▸ hown patched hpatched)
    have htarget : r.target? count site = none := by
      cases r with
      | emit | emitJump => rfl
      | patch patched target => exact if_neg (hother patched rfl)
      | patchHere patched => exact if_neg (hother patched rfl)
    rw [lastTargetFrom?, htarget,
      ih hrest (fun hmem => (List.mem_append.mp hmem).elim hknown hsite) hlater]
    rfl

/-- A patch gives the instruction at its site a target, whatever comes behind. -/
theorem getElem?_patch {patched : PatchSite} (hpatched : patched.index < b.nextIndex)
    (target : Nat) (more : List Instr) (index : Nat) :
    ((b.patch patched target).code.toList ++ more)[index]? =
      ((b.code.toList ++ more)[index]?).map
        (retarget (if patched = ⟨index⟩ then some target else none)) := by
  have hsite : patched = ⟨index⟩ ↔ patched.index = index := by
    cases patched
    simp
  have hpatch : (b.patch patched target).code.toList =
      b.code.toList.modify patched.index (retarget (some target)) := Array.toList_modify
  rw [nextIndex, ← Array.length_toList] at hpatched
  simp only [hpatch, hsite, List.getElem?_append, List.length_modify, List.getElem?_modify]
  by_cases hindex : patched.index = index
  · subst hindex
    simp only [if_pos hpatched, if_true]
    rfl
  · simp only [if_neg hindex, map_retarget_none, id_map']

/-- One request appends its instruction, or gives the instruction at its site a target. -/
theorem getElem?_serve {r : Request} (hsite : ∀ patched ∈ r.site?, patched.index < b.nextIndex)
    (more : List Instr) (index : Nat) :
    ((b.serve r).2.code.toList ++ more)[index]? =
      ((b.code.toList ++ (r.emission?.toList ++ more))[index]?).map
        (retarget (r.target? b.nextIndex ⟨index⟩)) := by
  cases r with
  | emit i => simp [serve, emit, Request.emission?, Request.target?]
  | emitJump op => simp [serve, emitJump, emit, Request.emission?, Request.target?]
  | patch patched target => exact getElem?_patch (hsite patched rfl) target more index
  | patchHere patched => exact getElem?_patch (hsite patched rfl) b.nextIndex more index

/-- **The builder has the instructions that were emitted**, each with the last target of its
site. -/
theorem getElem?_after (h : b.PatchesOwn known requests)
    (hknown : ∀ site ∈ known, site.index < b.nextIndex) (index : Nat) :
    (b.after requests).code[index]? =
      ((b.code.toList ++ emitted requests)[index]?).map
        (retarget (lastTargetFrom? ⟨index⟩ b.nextIndex requests)) := by
  induction requests generalizing b known with
  | nil => simp [after, emitted, lastTargetFrom?]
  | cons r rest ih =>
    obtain ⟨hown, hrest⟩ := h
    have hknown' : ∀ site ∈ known ++ (b.serve r).1.toList,
        site.index < (b.serve r).2.nextIndex := by
      intro site hsite
      rcases List.mem_append.mp hsite with hsite | hsite
      · rw [nextIndex_serve]
        exact Nat.lt_add_right _ (hknown site hsite)
      · exact (index_of_serve (Option.mem_toList.mp hsite)).2
    change ((b.serve r).2.after rest).code[index]? = _
    rw [ih hrest hknown', getElem?_serve fun site hsite => hknown site (hown site hsite),
      ← emitted_cons, nextIndex_serve, lastTargetFrom?, Option.map_map]
    exact congrArg (Option.map · _) (funext fun i => (retarget_or _ _ i).symm)

/-! ### The last patch -/

theorem patchesOwn_of_append {before later : List Request}
    (h : b.PatchesOwn known (before ++ later)) : b.PatchesOwn known before := by
  induction before generalizing b known with
  | nil => trivial
  | cons r rest ih => exact ⟨h.1, ih h.2⟩

theorem lastTargetFrom?_append (site : PatchSite) (count : Nat) (before later : List Request) :
    lastTargetFrom? site count (before ++ later) =
      (lastTargetFrom? site (count + (emitted before).length) later).or
        (lastTargetFrom? site count before) := by
  induction before generalizing count with
  | nil => exact Option.or_none.symm
  | cons r rest ih =>
    rw [List.cons_append, lastTargetFrom?, ih, lastTargetFrom?, emitted_cons, List.length_append,
      Nat.add_assoc, Option.or_assoc]

theorem lastTargetFrom?_of_spared {later : List Request} (h : ∀ r ∈ later, r.site? ≠ some site)
    (count : Nat) : lastTargetFrom? site count later = none := by
  induction later generalizing count with
  | nil => rfl
  | cons r rest ih =>
    obtain ⟨hr, hrest⟩ := List.forall_mem_cons.mp h
    have htarget : r.target? count site = none := by
      cases r with
      | emit | emitJump => rfl
      | patch => exact if_neg fun heq => hr (congrArg some heq)
      | patchHere => exact if_neg fun heq => hr (congrArg some heq)
    rw [lastTargetFrom?, ih hrest, htarget]
    rfl

/-! ### What comes of a history -/

/-- What the requests have made of a builder without instructions, and what it finishes as. -/
structure Fulfils (name : String) (requests : List Request) (b : Builder) : Prop where
  /-- There are as many instructions as were emitted. -/
  size : b.code.size = (emitted requests).length
  /-- An instruction has the place that the number of those emitted before it says, and is what it
  was when it was emitted. -/
  plain : ∀ before i later, requests = before ++ .emit i :: later →
    b.code[(emitted before).length]? = some i
  /-- The place of a placeholder is its site. -/
  site : ∀ before op later, requests = before ++ .emitJump op :: later →
    ((({ name } : Builder).after before).serve (.emitJump op)).1 =
      some ⟨(emitted before).length⟩
  /-- A placeholder that is patched at its site has the target of the last patch; that is the number
  of instructions emitted before if the patch points to the next instruction. -/
  patched : ∀ before op between r later target,
    requests = before ++ .emitJump op :: between ++ r :: later →
    r.target? (emitted (before ++ .emitJump op :: between)).length ⟨(emitted before).length⟩ =
      some target →
    (∀ r' ∈ later, r'.site? ≠ some ⟨(emitted before).length⟩) →
    b.code[(emitted before).length]? = some { op, arg := some (.target target) }
  /-- A placeholder that is not patched at its site has no target. -/
  unpatched : ∀ before op later, requests = before ++ .emitJump op :: later →
    (∀ r ∈ later, r.site? ≠ some ⟨(emitted before).length⟩) →
    b.code[(emitted before).length]? = some { op, arg := some .unpatched }
  /-- There is a routine, with the name and these instructions, exactly if all jumps are in
  order. -/
  accepted : ∀ r, b.finish = .ok r ↔ r = ⟨name, b.code⟩ ∧ ∀ i ∈ b.code, i.InOrder b.code.size
  /-- Otherwise the error is about the first jump that is not. -/
  refused : ∀ e, b.finish = .error e ↔ ∃ index i, b.code[index]? = some i ∧
    ¬ i.InOrder b.code.size ∧
    (∀ earlier < index, ∀ i', b.code[earlier]? = some i' → i'.InOrder b.code.size) ∧
    e = .about name index i

theorem name_after (b : Builder) (requests : List Request) : (b.after requests).name = b.name := by
  induction requests generalizing b with
  | nil => rfl
  | cons r rest ih =>
    refine (ih (b.serve r).2).trans ?_
    cases r <;> rfl

theorem nextIndex_after_empty (name : String) (requests : List Request) :
    (({ name } : Builder).after requests).nextIndex = (emitted requests).length := by
  rw [nextIndex_after]
  exact Nat.zero_add _

/-- The instruction at the place of an emission. -/
theorem getElem?_emitted {name : String} {before later : List Request} {r : Request} {i : Instr}
    (h : ({ name } : Builder).PatchesOwn [] (before ++ r :: later)) (hi : r.emission? = some i) :
    (({ name } : Builder).after (before ++ r :: later)).code[(emitted before).length]? =
      some (retarget
        (lastTargetFrom? ⟨(emitted before).length⟩ 0 (before ++ r :: later)) i) := by
  have hplace : (emitted (before ++ r :: later))[(emitted before).length]? = some i := by
    rw [emitted_append, emitted_cons, hi, List.getElem?_append_right Nat.le.refl, Nat.sub_self]
    rfl
  rw [getElem?_after h (List.forall_mem_nil _)]
  exact congrArg (Option.map _) hplace

/-- Before a site is handed out it is not patched. -/
theorem lastTargetFrom?_before {name : String} {before later : List Request}
    (h : ({ name } : Builder).PatchesOwn [] (before ++ later)) (count : Nat) :
    lastTargetFrom? ⟨(emitted before).length⟩ count before = none := by
  refine lastTargetFrom?_eq_none (patchesOwn_of_append h) List.not_mem_nil (fun hmem => ?_) count
  have hindex := (index_of_mem_sites hmem).2
  rw [nextIndex_after_empty] at hindex
  exact absurd hindex (Nat.lt_irrefl _)

/-- **A builder keeps what was emitted, points each jump to where its site was patched last, and
accepts exactly the code whose jumps are all in order**, whatever it is asked for, as long as only
its own sites are patched. -/
theorem finish_of_history (name : String) (requests : List Request)
    (h : ({ name } : Builder).PatchesOwn [] requests) :
    Fulfils name requests (({ name } : Builder).after requests) := by
  have hname := name_after { name } requests
  constructor
  case size => exact nextIndex_after_empty name requests
  case plain =>
    rintro before i later rfl
    have hnew := not_mem_sites_of_emit { name } before later i
    rw [nextIndex_after_empty] at hnew
    rw [getElem?_emitted h rfl, lastTargetFrom?_eq_none h List.not_mem_nil hnew]
    rfl
  case site =>
    rintro before op later rfl
    exact congrArg (fun index => some (PatchSite.mk index)) (nextIndex_after_empty name before)
  case patched =>
    rintro before op between r later target rfl htarget hspared
    rw [List.append_assoc] at h ⊢
    rw [List.cons_append] at h ⊢
    rw [getElem?_emitted h rfl, ← List.cons_append, ← List.append_assoc, lastTargetFrom?_append,
      Nat.zero_add, lastTargetFrom?, lastTargetFrom?_of_spared hspared, Option.none_or, htarget]
    rfl
  case unpatched =>
    rintro before op later rfl hspared
    rw [getElem?_emitted h rfl, lastTargetFrom?_append, lastTargetFrom?,
      lastTargetFrom?_of_spared hspared, lastTargetFrom?_before h]
    rfl
  case accepted =>
    intro r
    rw [finish, Routine.ofCode_eq_ok_iff, hname]
  case refused =>
    intro e
    rw [finish, Routine.ofCode_eq_error_iff, hname]

/-- Two placeholders of which the first is patched behind the second, and the second three times,
between other instructions. -/
def crossing : List Request :=
  [.emit (.push (.bool true)), .emitJump .jmpf, .emitJump .jmp, .patchHere ⟨2⟩, .patch ⟨2⟩ 9,
    .emit (.plain .nop), .patchHere ⟨1⟩, .emit (.jmp 0), .patch ⟨2⟩ 4]

theorem finish_of_history_crossing : ({ name := "crossing" } : Builder).PatchesOwn [] crossing ∧
    Fulfils "crossing" crossing (({ name := "crossing" } : Builder).after crossing) :=
  ⟨by decide, finish_of_history "crossing" crossing (by decide)⟩

example : (({ name := "crossing" } : Builder).after crossing).finish =
    .ok ⟨"crossing", #[.push (.bool true), .jmpf 4, .jmp 4, .plain .nop, .jmp 0]⟩ := rfl

end Builder
end Opstack
