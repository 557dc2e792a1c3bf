import Opstack.Proofs.Machine.Sessions
import Opstack.Proofs.Text.Lines

/-!
# What executions read

Executions share one input, and each `READ` takes one line off it, so whatever else a machine does
meanwhile, its `READ`s together give the lines of the input in order.

* `Execution.reads?` is what the next step of an execution reads, and `Machine.reads` are the
  values that a session has read, in the order in which it has read them.
* `Console.Reads` is what can become of the input in one step: it stays, or its first line has been
  read.
* `Machine.ReadsLines`: what a session reads, what it leaves unread, and what comes next.
-/

set_option autoImplicit false

namespace Opstack

/-! ## Steps -/

/-- What the next step of an execution reads: what a `READ` that does not fail leaves on top. -/
def Execution.reads? (s : Shared) (x : Execution) : Option Value :=
  match x.instr?, (step s x).2 with
  | some i, .continues y => if i.op = .read then y.operands.head? else none
  | _, _ => none

/-- Either nothing has been read and the input is as before, or its first line has been read and
the other lines are left. -/
inductive Console.Reads (t : Input) (c : Console) : Option Value → Prop
  /-- Nothing has been read. -/
  | nothing (h : c.Offers t) : Reads t c none
  /-- The first line has been read, or the end has been found. -/
  | line (h : c.Offers t.rest) : Reads t c (some (t.answer 0))

section

variable {s : Shared} {x : Execution} {i : Instr} {t : Input}

theorem perform_read (hread : i.op = .read) :
    perform s x i =
      ({ s with console := (x.read s.console).2 }, .ofExcept (x.read s.console).1) := by
  rw [perform, hread]
  rfl

theorem perform_write (hwrite : i.op = .write) :
    perform s x i =
      ({ s with console := (x.write s.console).2 }, .ofExcept (x.write s.console).1) := by
  rw [perform, hwrite]
  rfl

theorem Execution.read_of_flush (x : Execution) {c : Console} (h : c.Offers t)
    (hflush : c.flush.1 = .ok ()) :
    ∃ c', x.read c = (.ok (x.push (t.answer 0)), c') ∧ c'.Offers t.rest := by
  obtain ⟨c', hline, hoffers⟩ := Console.readLine_of_flush h hflush
  refine ⟨c', ?_, hoffers⟩
  rw [Execution.read, hline, t.answer_zero]
  cases t.texts.head? <;> rfl

theorem Execution.read_of_refusal (x : Execution) {c : Console} {reason : String}
    (hflush : c.flush.1 = .error reason) :
    x.read c = (.error (.io reason), { c with flushes := c.flushes + 1 }) := by
  rw [Execution.read, Console.readLine_of_refusal hflush]

/-- **A `READ` gives the next line once the output has been flushed.** -/
theorem step_of_read (hi : x.instr? = some i) (hread : i.op = .read)
    (hrun : s.isHalted = false) (h : s.console.Offers t) (hflush : s.console.flush.1 = .ok ()) :
    (step s x).2 = .continues (x.passed.push (t.answer 0)) ∧
      (step s x).1.console.Offers t.rest := by
  obtain ⟨c', hline, hoffers⟩ := x.passed.read_of_flush h hflush
  rw [step_of_instr? hi hrun, perform_read hread, hline]
  exact ⟨rfl, hoffers⟩

/-- **A `READ` fails without reading if the output cannot be flushed.** -/
theorem step_of_refusal (hi : x.instr? = some i) (hread : i.op = .read)
    (hrun : s.isHalted = false) {reason : String} (hflush : s.console.flush.1 = .error reason) :
    (step s x).2 = .fails (.raised (.io reason) (x.siteOf i) x.thread) ∧
      (step s x).1.console = { s.console with flushes := s.console.flushes + 1 } := by
  rw [step_of_instr? hi hrun, perform_read hread, x.passed.read_of_refusal hflush]
  exact ⟨rfl, rfl⟩

theorem Execution.reads?_of_read {y : Execution} (hi : x.instr? = some i) (hread : i.op = .read)
    (h : (step s x).2 = .continues y) : x.reads? s = y.operands.head? := by
  rw [Execution.reads?, hi, h]
  exact if_pos hread

/-- A step that does not go on has read nothing. -/
theorem Execution.reads?_of_fails {e : Failure} (h : (step s x).2 = .fails e) :
    x.reads? s = none := by
  rw [Execution.reads?, h]
  cases x.instr? <;> rfl

/-- An instruction other than `READ` reads nothing. -/
theorem Execution.reads?_of_op (h : ∀ i, x.instr? = some i → i.op ≠ .read) :
    x.reads? s = none := by
  rw [Execution.reads?]
  split
  · rename_i i y hi hstep
    exact if_neg (h i hi)
  · rfl

theorem Console.Offers.write {c : Console} (h : c.Offers t) (text : String) :
    (c.write text).2.Offers t := by
  rw [Console.write]
  split <;> exact ⟨h.input, h.ends⟩

theorem Execution.offers_write (x : Execution) {c : Console} (h : c.Offers t) :
    (x.write c).2.Offers t := by
  rw [Execution.write]
  split
  · exact h
  · rename_i v y hpop
    have hwrite := h.write v.text
    split <;> rename_i hresult <;> rwa [hresult] at hwrite

/-- An instruction other than `READ` leaves the input as it is. -/
theorem offers_step (h : s.console.Offers t) (hop : ∀ i, x.instr? = some i → i.op ≠ .read) :
    (step s x).1.console.Offers t := by
  rcases step_cases s x with ⟨-, hstep⟩ | ⟨i, -, -, hstep⟩ | ⟨i, hi, -, hstep⟩ <;> rw [hstep]
  · exact h
  · exact h
  · by_cases hwrite : i.op = .write
    · rw [perform_write hwrite]
      exact x.passed.offers_write h
    · rw [console_perform (hop i hi) hwrite]
      exact h

/-- **A step reads the first line of the input or nothing.** -/
theorem reads_step (h : s.console.Offers t) (x : Execution) :
    Console.Reads t (step s x).1.console (x.reads? s) := by
  by_cases hop : ∀ i, x.instr? = some i → i.op ≠ .read
  · rw [Execution.reads?_of_op hop]
    exact .nothing (offers_step h hop)
  obtain ⟨i, hi, hread⟩ : ∃ i, x.instr? = some i ∧ i.op = .read := by
    simpa only [not_forall, not_not, exists_prop] using hop
  cases hrun : s.isHalted with
  | true =>
    have hstep := step_of_isHalted hi hrun
    rw [Execution.reads?_of_fails (congrArg Prod.snd hstep), hstep]
    exact .nothing h
  | false =>
    cases hflush : s.console.flush.1 with
    | error reason =>
      obtain ⟨hfails, hconsole⟩ := step_of_refusal hi hread hrun hflush
      rw [Execution.reads?_of_fails hfails, hconsole]
      exact .nothing ⟨h.input, h.ends⟩
    | ok =>
      obtain ⟨hcontinues, hrest⟩ := step_of_read hi hread hrun h hflush
      rw [Execution.reads?_of_read hi hread hcontinues]
      exact .line hrest

end

/-! ## Turns -/

namespace Task

variable {s : Shared} {t : Input}

/-- What the next turn of a task reads. -/
def reads? (s : Shared) : Task → Option Value
  | .running x => x.reads? s
  | _ => none

theorem console_record (s : Shared) (thread : Option ThreadId) (call : Nat) (e : Failure) :
    (record s thread call e).1.console = s.console := by
  obtain ⟨threads, hthreads⟩ := exists_record s thread call e
  rw [hthreads]
  rfl

/-- The end of a call flushes the output. -/
theorem console_join (s : Shared) (call : Nat) : (join s call).console = s.console.flush.2 := by
  obtain ⟨failure, isHalted, hfold⟩ := exists_foldl_fail s (s.crashed call)
  rw [join.eq_def, hfold]
  dsimp only
  split <;> rename_i hflush
  · rw [hflush]
  · rw [hflush]
    rfl

/-- **A turn reads the first line of the input or nothing.** -/
theorem reads_turn (h : s.console.Offers t) (task : Task) :
    Console.Reads t (task.turn s).1.console (task.reads? s) := by
  cases task with
  | running x =>
    obtain ⟨threads, hturn⟩ := exists_turn_running s x
    rw [hturn]
    exact reads_step h x
  | waiting | closing | answered => exact .nothing h
  | failing thread call e => exact .nothing ((console_record s thread call e).symm ▸ h)
  | joining call result =>
    rw [turn]
    split
    · refine .nothing ?_
      rw [console_join, Console.snd_flush]
      exact ⟨h.input, h.ends⟩
    · exact .nothing h

end Task

/-! ## Sessions -/

namespace Machine

variable {m : Machine} {t : Input}

/-- What an event reads. -/
def readOf? (m : Machine) : Event → Option Value
  | .move (.advance position) => m.tasks[position]?.bind fun task => task.reads? m.shared
  | _ => none

/-- What a session reads, in this order. -/
def reads (m : Machine) : List Event → List Value
  | [] => []
  | event :: rest => (m.readOf? event).toList ++ (m.react event).reads rest

/-- **An event reads the first line of the input or nothing.** -/
theorem reads_react (h : m.shared.console.Offers t) (event : Event) :
    Console.Reads t (m.react event).shared.console (m.readOf? event) := by
  cases event with
  | add routine => exact .nothing h
  | ask request => exact .nothing h
  | move move =>
    cases move with
    | begin | forget => exact .nothing h
    | advance position =>
      cases htask : m.tasks[position]? with
      | none =>
        rw [readOf?, htask, react, Machine.move, advance_eq_self htask]
        exact .nothing h
      | some task =>
        obtain ⟨before, after, -, hadvance⟩ := advance_eq htask
        rw [readOf?, htask, react, Machine.move, hadvance]
        exact Task.reads_turn h task

/-- **A session reads the lines in order** and leaves the others unread. -/
theorem reads_live (h : m.shared.console.Offers t) (events : List Event) :
    m.reads events = (List.range (m.reads events).length).map t.answer ∧
      (m.live events).shared.console.Offers (t.after (m.reads events).length) := by
  induction events generalizing m t with
  | nil => exact ⟨rfl, h⟩
  | cons event rest ih =>
    have hreads := reads_react h event
    rw [reads]
    generalize m.readOf? event = value at hreads
    cases hreads with
    | nothing hsame => exact ih hsame
    | line hrest =>
      obtain ⟨hlines, hunread⟩ := ih hrest
      generalize (m.react event).reads rest = later at hlines hunread
      refine ⟨?_, hunread⟩
      have hlater : later = (List.range later.length).map fun n => t.answer (n + 1) :=
        hlines.trans (List.map_congr_left fun n _ => t.answer_rest n)
      change t.answer 0 :: later = (List.range (later.length + 1)).map t.answer
      rw [List.range_succ_eq_map, List.map_cons, List.map_map]
      exact congrArg _ hlater

/-- What a session has read of the input, what it has left, and what comes next. -/
structure ReadsLines (m : Machine) (t : Input) (events : List Event) : Prop where
  /-- What has been read are the first lines in order, and `null` each time after the last one. -/
  lines : m.reads events = (List.range (m.reads events).length).map t.answer
  /-- What has not been read are exactly the other lines with their endings. -/
  unread : (m.live events).shared.console.Offers (t.after (m.reads events).length)
  /-- If the output can be flushed, the next `READ` gives the next line. -/
  next : ∀ x i, x.instr? = some i → i.op = .read → (m.live events).shared.isHalted = false →
    (m.live events).shared.console.flush.1 = .ok () →
    (step (m.live events).shared x).2 =
        .continues (x.passed.push (t.answer (m.reads events).length)) ∧
      (step (m.live events).shared x).1.console.Offers (t.after (m.reads events).length).rest
  /-- If the output cannot be flushed, the next `READ` fails, and leaves the input as it is. -/
  refused : ∀ x i, x.instr? = some i → i.op = .read → (m.live events).shared.isHalted = false →
    ∀ reason, (m.live events).shared.console.flush.1 = .error reason →
    (step (m.live events).shared x).2 = .fails (.raised (.io reason) (x.siteOf i) x.thread) ∧
      (step (m.live events).shared x).1.console.input = (m.live events).shared.console.input

/-- **Reading recovers the lines of the input**, whatever else happens in the session. -/
theorem readsLines_of_live (m : Machine) (t : Input) (h : m.shared.console.Offers t)
    (events : List Event) : m.ReadsLines t events := by
  obtain ⟨hlines, hunread⟩ := reads_live h events
  constructor
  case lines => exact hlines
  case unread => exact hunread
  case next =>
    intro x i hi hread hrun hflush
    rw [← t.answer_after]
    exact step_of_read hi hread hrun hunread hflush
  case refused =>
    intro x i hi hread hrun reason hflush
    obtain ⟨hfails, hconsole⟩ := step_of_refusal hi hread hrun hflush
    exact ⟨hfails, by rw [hconsole]⟩

/-- Two lines, one with each ending, and a last one that has none. -/
def threeLines : Input where
  lines := [⟨"one", true, by decide, by decide⟩, ⟨"two", false, by decide, by decide⟩]
  last := "three\r"
  noFeed := by decide

/-- A session that calls a routine which reads four times. -/
def fourReads : List Event :=
  .add ⟨"main", #[.plain .read, .plain .read, .plain .read, .plain .read]⟩ ::
    .move (.begin "main" []) :: turnsAt [0, 0, 0, 0]

theorem readsLines_fourReads :
    (Console.ofText "one\r\ntwo\nthree\r").Offers threeLines ∧
      (create {} (Console.ofText "one\r\ntwo\nthree\r")).ReadsLines threeLines fourReads ∧
      (create {} (Console.ofText "one\r\ntwo\nthree\r")).reads fourReads =
        [.str "one", .str "two", .str "three\r", .null] := by
  have hoffers : (Console.ofText "one\r\ntwo\nthree\r").Offers threeLines := ⟨rfl, rfl⟩
  refine ⟨hoffers, readsLines_of_live _ threeLines hoffers fourReads, ?_⟩
  have hconsole : Console.ofText "one\r\ntwo\nthree\r" = { input :=
      [111, 110, 101, 13, 10, 116, 119, 111, 10, 116, 104, 114, 101, 101, 13] } := by
    rw [Console.ofText, Utf8.encode_eq]
    rfl
  rw [hconsole]
  rfl

end Machine
end Opstack
