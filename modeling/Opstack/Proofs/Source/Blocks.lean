import Opstack.Source.Scope

/-!
# A scope is a stack of blocks

A `Scope` keeps the variables of all open blocks in one list and knows them apart by a depth.
`Blocks` is what that list stands for: the open blocks themselves, each with its own variables.
Both are asked to open and close blocks, to declare and to resolve, in any order, and also to close
more blocks than were opened.

* `Scope.serve` and `Blocks.serve` answer a request, `Scope.log` and `Blocks.log` the answers to a
  list of them.
* `Blocks.toScope` puts the variables of all blocks into one list.  `Blocks.serve_toScope`: a
  request does the same before and after that.  Nothing has to be assumed of the depths, since those
  of such a list fall towards its end by the way it is made (`Blocks.depth_lt_of_mem_leveled`).
* `Request.Matched` lists close every block that they open and no other, so they change only the
  innermost block (`Blocks.serveAll_matched`).
* `Scope.isStackOfBlocks`: what a scope says and does after any list of requests.
-/

set_option autoImplicit false

namespace Opstack

/-! ## Requests -/

namespace Scope

/-- An operation on a scope with its arguments. -/
inductive Request
  /-- Open a block. -/
  | enter
  /-- Close the innermost block. -/
  | leave
  /-- Declare a variable in the innermost block. -/
  | declare (name : String)
  /-- Find the slot of a variable. -/
  | resolve (name : String)
deriving DecidableEq

/-- What a request is answered with. -/
inductive Answer
  /-- There is nothing to say. -/
  | done
  /-- The number of variables that cannot be seen any more. -/
  | hidden (count : Nat)
  /-- The slot of a new variable. -/
  | given (slot : Nat)
  /-- There is no new variable. -/
  | refused (reason : CompileError)
  /-- The slot of a variable, if there is a variable of the name. -/
  | found (slot? : Option Nat)
deriving DecidableEq

/-- The slot that an answer hands out. -/
def Answer.newSlot? : Answer → Option Nat
  | .given slot => some slot
  | _ => none

/-- Answers a request. -/
def serve (s : Scope) : Request → Answer × Scope
  | .enter => (.done, s.enter)
  | .leave => (.hidden s.innermost.length, s.leave)
  | .declare name =>
    match s.declare name with
    | .ok (slot, s') => (.given slot, s')
    | .error reason => (.refused reason, s)
  | .resolve name => (.found (s.resolve? name), s)

/-- The scope after a list of requests. -/
def serveAll (s : Scope) (requests : List Request) : Scope :=
  requests.foldl (fun s r => (s.serve r).2) s

/-- The answers to a list of requests. -/
def log (s : Scope) : List Request → List Answer
  | [] => []
  | r :: requests => (s.serve r).1 :: (s.serve r).2.log requests

/-- The requests close every block that they open, and no other. -/
inductive Request.Matched : List Request → Prop
  | nil : Matched []
  | declare (name : String) {requests : List Request} (h : Matched requests) :
    Matched (.declare name :: requests)
  | resolve (name : String) {requests : List Request} (h : Matched requests) :
    Matched (.resolve name :: requests)
  | block {inner requests : List Request} (hinner : Matched inner) (h : Matched requests) :
    Matched (.enter :: inner ++ .leave :: requests)

end Scope

open Scope (Request Answer)

/-! ## Blocks -/

/-- The open blocks of a function, each with the names and the slots of its variables, the latest
first. -/
structure Blocks where
  /-- The variables of the innermost block. -/
  innermost : List (String × Nat) := []
  /-- Those of the blocks around it, from the inside to the outside. -/
  outer : List (List (String × Nat)) := []
  /-- How many variables have been declared, those of closed blocks included. -/
  declared : Nat := 0

namespace Blocks

/-- The slot of a variable, in the first block that has a variable of the name. -/
def resolve? (b : Blocks) (name : String) : Option Nat :=
  (b.innermost :: b.outer).findSome? fun block => block.lookup name

/-- Answers a request. -/
def serve (b : Blocks) : Request → Answer × Blocks
  | .enter => (.done, { b with innermost := [], outer := b.innermost :: b.outer })
  | .leave =>
    (.hidden b.innermost.length, { b with innermost := b.outer.headD [], outer := b.outer.tail })
  | .declare name =>
    if name ∈ b.innermost.map Prod.fst then (.refused (.duplicateVariable name), b)
    else (.given b.declared,
      { b with innermost := (name, b.declared) :: b.innermost, declared := b.declared + 1 })
  | .resolve name => (.found (b.resolve? name), b)

/-- The blocks after a list of requests. -/
def serveAll (b : Blocks) (requests : List Request) : Blocks :=
  requests.foldl (fun b r => (b.serve r).2) b

/-- The answers to a list of requests. -/
def log (b : Blocks) : List Request → List Answer
  | [] => []
  | r :: requests => (b.serve r).1 :: (b.serve r).2.log requests

/-! ### All blocks in one list -/

/-- The variables of a block at a depth. -/
def atDepth (depth : Nat) (block : List (String × Nat)) : List Local :=
  block.map fun entry => ⟨entry.1, depth, entry.2⟩

/-- The variables of blocks, each with the number of the blocks around its own. -/
def leveled : List (List (String × Nat)) → List Local
  | [] => []
  | block :: outer => atDepth outer.length block ++ leveled outer

/-- The scope in which the variables of these blocks are. -/
def toScope (b : Blocks) : Scope where
  locals := leveled (b.innermost :: b.outer)
  depth := b.outer.length
  slotCount := b.declared

theorem depth_of_mem_atDepth {depth : Nat} {block : List (String × Nat)} {l : Local}
    (hl : l ∈ atDepth depth block) : l.depth = depth := by
  rw [atDepth, List.mem_map] at hl
  obtain ⟨entry, -, rfl⟩ := hl
  rfl

theorem depth_lt_of_mem_leveled {blocks : List (List (String × Nat))} {l : Local}
    (hl : l ∈ leveled blocks) : l.depth < blocks.length := by
  induction blocks with
  | nil => cases hl
  | cons block outer ih =>
    rw [leveled, List.mem_append] at hl
    rw [List.length_cons]
    rcases hl with hl | hl
    · rw [depth_of_mem_atDepth hl]
      exact Nat.lt_succ_self _
    · exact Nat.lt_succ_of_lt (ih hl)

theorem map_name_atDepth (depth : Nat) (block : List (String × Nat)) :
    (atDepth depth block).map Local.name = block.map Prod.fst := by
  rw [atDepth, List.map_map]
  rfl

/-- A scan that takes the depth of the innermost block and none outside it stops right behind the
variables of this block. -/
theorem takeWhile_toScope (b : Blocks) {p : Local → Bool}
    (hhere : ∀ l : Local, l.depth = b.outer.length → p l = true)
    (hout : ∀ l : Local, l.depth < b.outer.length → p l = false) :
    b.toScope.locals.takeWhile p = atDepth b.outer.length b.innermost := by
  rw [toScope, leveled,
    List.takeWhile_append_of_pos fun l hl => hhere l (depth_of_mem_atDepth hl)]
  have hnone : (leveled b.outer).takeWhile p = [] := by
    rcases hlocals : leveled b.outer with _ | ⟨l, ls⟩
    · rfl
    · have hl : l ∈ leveled b.outer := hlocals ▸ List.mem_cons_self
      rw [List.takeWhile_cons, hout l (depth_lt_of_mem_leveled hl), if_neg Bool.false_ne_true]
  rw [hnone, List.append_nil]

theorem innermost_toScope (b : Blocks) :
    b.toScope.innermost = atDepth b.outer.length b.innermost :=
  b.takeWhile_toScope (fun _ hl => beq_iff_eq.mpr hl)
    fun _ hl => beq_eq_false_iff_ne.mpr (Nat.ne_of_lt hl)

/-- The scan for a variable of a name that goes on as long as no block around the innermost one is
met. -/
theorem takeWhile_not_lt_toScope (b : Blocks) :
    (b.toScope.locals.takeWhile fun l => !decide (l.depth < b.toScope.depth)) =
      b.toScope.innermost := by
  rw [innermost_toScope]
  refine b.takeWhile_toScope (fun l hl => ?_) fun l hl => ?_
  · rw [hl, show b.toScope.depth = b.outer.length from rfl, decide_eq_false (Nat.lt_irrefl _)]
    rfl
  · rw [show b.toScope.depth = b.outer.length from rfl, decide_eq_true hl]
    rfl

theorem map_name_innermost_toScope (b : Blocks) :
    b.toScope.innermost.map Local.name = b.innermost.map Prod.fst := by
  rw [innermost_toScope, map_name_atDepth]

theorem map_entry_atDepth (depth : Nat) (block : List (String × Nat)) :
    (atDepth depth block).map (fun l => (l.name, l.slot)) = block := by
  rw [atDepth, List.map_map]
  exact List.map_id _

theorem map_entry_leveled (blocks : List (List (String × Nat))) :
    (leveled blocks).map (fun l => (l.name, l.slot)) = blocks.flatten := by
  induction blocks with
  | nil => rfl
  | cons block outer ih =>
    rw [leveled, List.map_append, map_entry_atDepth, ih, List.flatten_cons]

theorem locals_leave_toScope (b : Blocks) : b.toScope.leave.locals = leveled b.outer := by
  have happend := List.takeWhile_append_dropWhile (p := fun l : Local => l.depth == b.outer.length)
    (l := b.toScope.locals)
  have htake := b.innermost_toScope
  rw [Scope.innermost] at htake
  rw [show b.outer.length = b.toScope.depth from rfl, htake] at happend
  exact List.append_cancel_left happend

theorem leveled_headD_tail (outer : List (List (String × Nat))) :
    leveled (outer.headD [] :: outer.tail) = leveled outer := by
  cases outer with
  | nil => rfl
  | cons block outer => rfl

theorem find?_atDepth (depth : Nat) (block : List (String × Nat)) (name : String) :
    ((atDepth depth block).find? fun l => l.name == name).map Local.slot = block.lookup name := by
  induction block with
  | nil => rfl
  | cons entry block ih =>
    obtain ⟨key, slot⟩ := entry
    rw [atDepth] at ih ⊢
    rw [List.map_cons, List.find?_cons, List.lookup_cons, Bool.beq_comm (a := name)]
    cases hkey : key == name with
    | true => rfl
    | false => exact ih

theorem resolve?_toScope (b : Blocks) (name : String) :
    b.toScope.resolve? name = b.resolve? name := by
  suffices hall : ∀ blocks : List (List (String × Nat)),
      ((leveled blocks).find? fun l => l.name == name).map Local.slot =
        blocks.findSome? fun block => block.lookup name from hall _
  intro blocks
  induction blocks with
  | nil => rfl
  | cons block outer ih =>
    rw [leveled, List.find?_append, List.findSome?_cons, ← find?_atDepth outer.length]
    cases (atDepth outer.length block).find? fun l => l.name == name with
    | none => exact ih
    | some l => rfl

/-! ## The same answers -/

theorem declare_toScope (b : Blocks) (name : String) :
    b.toScope.serve (.declare name) =
      ((b.serve (.declare name)).1, (b.serve (.declare name)).2.toScope) := by
  have hany : (b.toScope.innermost.any fun l => l.name == name) =
      decide (name ∈ b.innermost.map Prod.fst) := by
    rw [← map_name_innermost_toScope, Bool.eq_iff_iff]
    simp
  rw [Scope.serve, Scope.declare, hany, serve]
  by_cases hmem : name ∈ b.innermost.map Prod.fst
  · rw [decide_eq_true hmem, if_pos rfl, if_pos hmem]
  · rw [decide_eq_false hmem, if_neg Bool.false_ne_true, if_neg hmem]
    rfl

/-- **One request** does the same to the blocks and to their scope. -/
theorem serve_toScope (b : Blocks) (r : Request) :
    b.toScope.serve r = ((b.serve r).1, (b.serve r).2.toScope) := by
  cases r with
  | enter => rfl
  | leave =>
    have hleave : b.toScope.leave = (b.serve .leave).2.toScope := by
      rw [Scope.leave, toScope, toScope, Scope.mk.injEq]
      refine ⟨?_, ?_, rfl⟩
      · exact b.locals_leave_toScope.trans (leveled_headD_tail b.outer).symm
      · exact List.length_tail.symm
    rw [Scope.serve, hleave, innermost_toScope, atDepth, List.length_map]
    rfl
  | declare name => exact b.declare_toScope name
  | resolve name => rw [Scope.serve, resolve?_toScope]; rfl

theorem serveAll_toScope (b : Blocks) (requests : List Request) :
    b.toScope.serveAll requests = (b.serveAll requests).toScope := by
  induction requests generalizing b with
  | nil => rfl
  | cons r requests ih =>
    rw [Scope.serveAll, serveAll, List.foldl_cons, List.foldl_cons, serve_toScope]
    exact ih _

theorem log_toScope (b : Blocks) (requests : List Request) :
    b.toScope.log requests = b.log requests := by
  induction requests generalizing b with
  | nil => rfl
  | cons r requests ih =>
    rw [Scope.log, log, serve_toScope]
    exact congrArg _ (ih _)

/-! ## Slots -/

/-- The slots are handed out from the number of the variables that there have been. -/
theorem newSlots_log (b : Blocks) (requests : List Request) :
    ∃ count, (b.log requests).filterMap Answer.newSlot? = List.range' b.declared count ∧
      (b.serveAll requests).declared = b.declared + count := by
  induction requests generalizing b with
  | nil => exact ⟨0, rfl, rfl⟩
  | cons r requests ih =>
    obtain ⟨count, hslots, hcount⟩ := ih (b.serve r).2
    rw [log, serveAll, List.foldl_cons]
    rcases hanswer : (b.serve r).1.newSlot? with _ | slot
    · have hdeclared : (b.serve r).2.declared = b.declared := by
        cases r with
        | enter | leave | resolve => rfl
        | declare name =>
          rw [serve] at hanswer ⊢
          split at hanswer
          · rw [if_pos ‹_›]
          · cases hanswer
      rw [hdeclared] at hslots hcount
      exact ⟨count, by rw [List.filterMap_cons_none hanswer, hslots], hcount⟩
    · have hdeclared : slot = b.declared ∧ (b.serve r).2.declared = b.declared + 1 := by
        cases r with
        | enter | leave | resolve => cases hanswer
        | declare name =>
          rw [serve] at hanswer ⊢
          split at hanswer
          · cases hanswer
          · cases hanswer
            rw [if_neg ‹_›]
            exact ⟨rfl, rfl⟩
      obtain ⟨rfl, hdeclared⟩ := hdeclared
      rw [hdeclared] at hslots hcount
      refine ⟨count + 1, ?_, ?_⟩
      · rw [List.filterMap_cons_some hanswer, hslots, List.range'_succ]
      · exact hcount.trans (by omega)

theorem newSlots_log_empty (requests : List Request) :
    (({} : Blocks).log requests).filterMap Answer.newSlot? =
      List.range (({} : Blocks).serveAll requests).declared := by
  obtain ⟨count, hslots, hcount⟩ := newSlots_log {} requests
  rw [hslots, hcount, List.range_eq_range', Nat.zero_add]

/-! ## Blocks that are opened and closed -/

theorem serveAll_append (b : Blocks) (before requests : List Request) :
    b.serveAll (before ++ requests) = (b.serveAll before).serveAll requests :=
  List.foldl_append

/-- Requests that close the blocks they open leave the blocks around them as they are. -/
theorem serveAll_matched {requests : List Request} (h : Request.Matched requests) (b : Blocks) :
    (b.serveAll requests).outer = b.outer := by
  induction h generalizing b with
  | nil => rfl
  | declare name h ih =>
    rw [serveAll, List.foldl_cons]
    refine (ih _).trans ?_
    rw [serve]
    split <;> rfl
  | resolve name h ih => exact ih _
  | block hinner h ihinner ih =>
    rw [List.cons_append, serveAll, List.foldl_cons, ← serveAll, serveAll_append, serveAll,
      List.foldl_cons]
    refine (ih _).trans ?_
    change ((serveAll _ _).outer).tail = _
    rw [ihinner]
    rfl

end Blocks

/-! ## The scope of a list of requests -/

namespace Scope

/-- What holds of a new scope after a list of requests, and of what it does next. -/
structure IsStackOfBlocks (requests : List Request) (s : Scope) (b : Blocks) : Prop where
  /-- All answers were those of the blocks. -/
  log : ({} : Scope).log requests = ({} : Blocks).log requests
  /-- The depth is the number of the blocks around the innermost one. -/
  depth : s.depth = b.outer.length
  /-- The variables that can be seen are those of the open blocks, from the inside to the
  outside. -/
  locals : s.locals.map (fun l => (l.name, l.slot)) = (b.innermost :: b.outer).flatten
  /-- Those of the innermost block are all that stand in front of the first one of a block around
  it. -/
  innermost : s.innermost = (s.locals.takeWhile fun l => !decide (l.depth < s.depth)) ∧
    s.innermost.map (fun l => (l.name, l.slot)) = b.innermost
  /-- The slots that were handed out are the numbers from zero on, each once. -/
  slots : (({} : Scope).log requests).filterMap Answer.newSlot? = List.range s.slotCount
  /-- A name that the innermost block has is refused, and nothing changes. -/
  refused : ∀ name, name ∈ s.innermost.map Local.name →
    s.serve (.declare name) = (.refused (.duplicateVariable name), s)
  /-- Any other name gets the number of the variables declared before as its slot. -/
  declared : ∀ name, name ∉ s.innermost.map Local.name →
    s.serve (.declare name) =
      (.given ((({} : Scope).log requests).filterMap Answer.newSlot?).length,
        { s with
          locals := ⟨name, s.depth, s.slotCount⟩ :: s.locals
          slotCount := s.slotCount + 1 })
  /-- A name is looked up block by block. -/
  resolve : ∀ name, s.resolve? name =
    (b.innermost :: b.outer).findSome? fun block => block.lookup name
  /-- Closing a block says how many variables go, and those of the innermost block go. -/
  leave : s.serve .leave = (.hidden s.innermost.length, s.leave) ∧
    s.locals = s.innermost ++ s.leave.locals ∧ ∀ l ∈ s.leave.locals, l.depth < s.depth
  /-- Where no block is open, the variables outside all blocks go and the depth stays. -/
  outermost : s.depth = 0 → s.leave = { s with locals := [] }
  /-- When a block that is opened now is closed, the same variables can be seen as now. -/
  restored : ∀ requests', Request.Matched requests' →
    ((s.enter.serveAll requests').leave).locals = s.locals ∧
      ((s.enter.serveAll requests').leave).depth = s.depth

/-- **A scope is a stack of blocks**: it gives the answers of the blocks that its list stands for,
whatever it was asked. -/
theorem isStackOfBlocks (requests : List Request) :
    IsStackOfBlocks requests (({} : Scope).serveAll requests)
      (({} : Blocks).serveAll requests) := by
  have hlog : ({} : Scope).log requests = ({} : Blocks).log requests := Blocks.log_toScope {} _
  have hafter : ({} : Scope).serveAll requests = (({} : Blocks).serveAll requests).toScope :=
    Blocks.serveAll_toScope {} _
  have hslots := Blocks.newSlots_log_empty requests
  rw [hafter]
  generalize ({} : Blocks).serveAll requests = b at hslots
  refine ⟨hlog, rfl, ?_, ⟨?_, ?_⟩, ?_, ?_, ?_, b.resolve?_toScope, ⟨rfl, ?_, ?_⟩, ?_, ?_⟩
  · exact Blocks.map_entry_leveled _
  · exact b.takeWhile_not_lt_toScope.symm
  · rw [b.innermost_toScope, Blocks.map_entry_atDepth]
  · rw [hlog]
    exact hslots
  · intro name hmem
    rw [b.map_name_innermost_toScope] at hmem
    rw [b.serve_toScope, Blocks.serve, if_pos hmem]
  · intro name hmem
    rw [b.map_name_innermost_toScope] at hmem
    rw [b.serve_toScope, Blocks.serve, if_neg hmem, hlog, hslots, List.length_range]
    rfl
  · exact (List.takeWhile_append_dropWhile).symm
  · rw [b.locals_leave_toScope]
    exact fun l hl => Blocks.depth_lt_of_mem_leveled hl
  · intro hdepth
    have houter : b.outer = [] := List.eq_nil_of_length_eq_zero hdepth
    have hlocals := b.locals_leave_toScope
    rw [houter] at hlocals
    change Scope.mk b.toScope.leave.locals (b.toScope.depth - 1) b.toScope.slotCount = _
    rw [hlocals, hdepth]
    rfl
  · intro requests' hmatched
    have henter : b.toScope.enter = (b.serve .enter).2.toScope := rfl
    have houter := Blocks.serveAll_matched hmatched (b.serve .enter).2
    rw [henter, Blocks.serveAll_toScope, Blocks.locals_leave_toScope, houter]
    refine ⟨rfl, ?_⟩
    change ((b.serve .enter).2.serveAll requests').outer.length - 1 = _
    rw [houter]
    rfl

end Scope
end Opstack
