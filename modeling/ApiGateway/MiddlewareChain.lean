import Mathlib.Logic.Relation
import ApiGateway.HttpText
import ApiGateway.StepRuns

/-! `MiddlewarePipeline::run` as a machine over its call stack. The code of a
middleware is any program; one move of the innermost one is one step. -/

namespace ApiGateway.MiddlewareChain
open ByteText StepRuns

variable {σ ε μ : Type*}

inductive Exception (ε : Type*) where
  | logicError (what : Bytes)
  | invalidArgument (ex : HttpText.InvalidArgument)
  | thrown (ex : ε)
  deriving DecidableEq

abbrev Outcome (ε : Type*) := Except (Exception ε) Unit

/-- `callNext frame` calls the `Next` that the middleware at that position was
given: the caller's own, or one that reached it as a copy. -/
inductive Move (σ ε : Type*) where
  | assign (state : σ)
  | callNext (frame : Nat)
  | ret
  | raise (ex : Exception ε)

/-- `σ` is the request, the response and whatever else the code shares, `ε` the
exceptions it throws itself, `μ` what one call of it remembers. -/
structure Program (σ ε μ : Type*) where
  start : μ
  move : μ → σ → Move σ ε × μ
  /-- What is remembered when a called `Next` returns or throws. -/
  resume : μ → Outcome ε → μ

def kMaxMiddleware : Nat := 64

structure MiddlewarePipeline (σ ε μ : Type*) where
  middleware : List (Program σ ε μ)
  bounded : middleware.length ≤ kMaxMiddleware

inductive AddError where
  | invalidArgument (what : Bytes)
  | lengthError (what : Bytes)
  deriving DecidableEq

/-- `none` is an empty `std::function`. -/
def MiddlewarePipeline.add (pipeline : MiddlewarePipeline σ ε μ) :
    Option (Program σ ε μ) → Except AddError (MiddlewarePipeline σ ε μ)
  | none => .error (.invalidArgument (ascii "middleware must not be empty"))
  | some middleware =>
      if h : pipeline.middleware.length ≥ kMaxMiddleware then
        .error (.lengthError (ascii "too many middleware registered"))
      else .ok ⟨pipeline.middleware ++ [middleware], by
        rw [List.length_append, List.length_singleton]
        omega⟩

/-- The terminal stands behind the last middleware. -/
def MiddlewarePipeline.code (pipeline : MiddlewarePipeline σ ε μ) (terminal : Program σ ε μ)
    (index : Nat) : Program σ ε μ :=
  (pipeline.middleware[index]?).getD terminal

/-- One call of `invoke` that has not returned, with its flag. -/
structure Frame (μ : Type*) where
  index : Nat
  advanced : Bool
  memory : μ

inductive Entry where
  | entered (index : Nat)
  | nextCalled (frame caller : Nat)
  deriving DecidableEq

/-- The innermost frame stands first; `log` is what has happened. -/
structure Machine (σ ε μ : Type*) where
  stack : List (Frame μ)
  state : σ
  outcome : Option (Outcome ε)
  log : List Entry

section Steps

variable (pipeline : MiddlewarePipeline σ ε μ) (terminal : Program σ ε μ)

def invoke (index : Nat) (m : Machine σ ε μ) : Machine σ ε μ :=
  { m with
    stack := ⟨index, false, (pipeline.code terminal index).start⟩ :: m.stack
    log := m.log ++ [.entered index] }

def resume (outcome : Outcome ε) (caller : Frame μ) : Frame μ :=
  { caller with memory := (pipeline.code terminal caller.index).resume caller.memory outcome }

def deliver (outcome : Outcome ε) (m : Machine σ ε μ) : Machine σ ε μ :=
  match m.stack with
  | [] => { m with outcome := some outcome }
  | caller :: rest => { m with stack := resume pipeline terminal outcome caller :: rest }

def setAdvanced (frame : Nat) (stack : List (Frame μ)) : List (Frame μ) :=
  stack.map fun f => if f.index = frame then { f with advanced := true } else f

def calledTwice : Bytes := ascii "middleware called next() more than once"

/-- `Next::operator()`; `none` is a `Next` whose frame is gone, or the terminal's,
which has none. -/
def callNext (frame : Nat) (m : Machine σ ε μ) : Option (Machine σ ε μ) :=
  match m.stack.find? fun f => f.index = frame with
  | none => none
  | some f =>
      if frame = pipeline.middleware.length then none
      else if f.advanced then some (deliver pipeline terminal (.error (.logicError calledTwice)) m)
      else some (invoke pipeline terminal (frame + 1)
        { m with stack := setAdvanced frame m.stack })

def step (m : Machine σ ε μ) : Option (Machine σ ε μ) :=
  match m.stack with
  | [] => none
  | top :: rest =>
      match (pipeline.code terminal top.index).move top.memory m.state with
      | (.assign state, memory) =>
          some { m with state := state, stack := { top with memory := memory } :: rest }
      | (.callNext frame, memory) =>
          callNext pipeline terminal frame
            { m with
              stack := { top with memory := memory } :: rest
              log := m.log ++ [.nextCalled frame top.index] }
      | (.ret, _) => some (deliver pipeline terminal (.ok ()) { m with stack := rest })
      | (.raise ex, _) => some (deliver pipeline terminal (.error ex) { m with stack := rest })

/-- `MiddlewarePipeline::run` on entry. -/
def run (state : σ) : Machine σ ε μ := invoke pipeline terminal 0 ⟨[], state, none, []⟩

def Reached (state : σ) (m : Machine σ ε μ) : Prop :=
  Relation.ReflTransGen (fun m m' => step pipeline terminal m = some m')
    (run pipeline terminal state) m

def runFor : Nat → Machine σ ε μ → Machine σ ε μ
  | 0, m => m
  | count + 1, m =>
      match step pipeline terminal m with
      | none => m
      | some m' => runFor count m'

theorem reached_runFor (state : σ) (count : Nat) :
    Reached pipeline terminal state
      (runFor pipeline terminal count (run pipeline terminal state)) := by
  have hfrom : ∀ count m, Reached pipeline terminal state m →
      Reached pipeline terminal state (runFor pipeline terminal count m) := by
    intro count
    induction count with
    | zero => exact fun m reached => reached
    | succ count ih =>
        intro m reached
        rw [runFor]
        split
        · exact reached
        · next m' hstep => exact ih m' (reached.tail hstep)
  exact hfrom count _ .refl

end Steps

def enteredIndex : Entry → Option Nat
  | .entered index => some index
  | .nextCalled _ _ => none

def Machine.entered (m : Machine σ ε μ) : List Nat := m.log.filterMap enteredIndex

/-- A middleware behind the first is entered by a call that the one before it makes. -/
def Chained (log : List Entry) : Prop :=
  ∀ index before after, log = before ++ .entered (index + 1) :: after →
    ∃ earlier, before = earlier ++ [.nextCalled index index]

/-- The frames are the first positions entered, each inside the one before, and a
flag is set exactly when the next position has been entered. -/
structure Inv (size : Nat) (m : Machine σ ε μ) : Prop where
  order : m.entered = List.range m.entered.length
  bound : m.entered.length ≤ size + 1
  nested : m.stack.map Frame.index = (List.range m.stack.length).reverse
  depth : m.stack.length ≤ m.entered.length
  advanced : ∀ frame ∈ m.stack, frame.advanced = decide (frame.index + 1 < m.entered.length)
  called : ∀ frame caller, Entry.nextCalled frame caller ∈ m.log → frame + 1 < m.entered.length
  chained : Chained m.log

variable {pipeline : MiddlewarePipeline σ ε μ} {terminal : Program σ ε μ} {size : Nat}
  {m m' : Machine σ ε μ}

theorem Chained.nextCalled {log : List Entry} (h : Chained log) (frame caller : Nat) :
    Chained (log ++ [.nextCalled frame caller]) := by
  intro index before after hsplit
  rcases snoc_split hsplit with ⟨_, hlast⟩ | ⟨more, hlog⟩
  · cases hlast
  · exact h index before more hlog

theorem Chained.entered {log earlier : List Entry} {index : Nat} (h : Chained log)
    (called : log = earlier ++ [.nextCalled index index]) :
    Chained (log ++ [.entered (index + 1)]) := by
  intro next before after hsplit
  rcases snoc_split hsplit with ⟨hlog, hlast⟩ | ⟨more, hlog⟩
  · cases hlast
    exact ⟨earlier, hlog ▸ called⟩
  · exact h next before more hlog

theorem entered_nextCalled (log : List Entry) (frame caller : Nat) :
    (log ++ [Entry.nextCalled frame caller]).filterMap enteredIndex =
      log.filterMap enteredIndex := by
  simp [enteredIndex]

theorem Inv.index_lt (h : Inv size m) {frame : Frame μ} (hframe : frame ∈ m.stack) :
    frame.index < m.stack.length := by
  have hmem := List.mem_map_of_mem (f := Frame.index) hframe
  rw [h.nested, List.mem_reverse, List.mem_range] at hmem
  exact hmem

theorem Inv.frame_at (h : Inv size m) {index : Nat} (hindex : index < m.stack.length) :
    ∃ frame ∈ m.stack, frame.index = index := by
  have hmem : index ∈ m.stack.map Frame.index := by
    rw [h.nested, List.mem_reverse, List.mem_range]
    exact hindex
  exact List.mem_map.mp hmem

theorem Inv.top (h : Inv size m) {top : Frame μ} {rest : List (Frame μ)}
    (hstack : m.stack = top :: rest) :
    top.index = rest.length ∧ rest.map Frame.index = (List.range rest.length).reverse := by
  have hnested := h.nested
  rw [hstack, List.map_cons, List.length_cons, List.range_succ, List.reverse_append,
    List.reverse_singleton, List.singleton_append] at hnested
  exact List.cons.inj hnested

theorem Inv.same_frames (h : Inv size m) (log : m'.log = m.log)
    (frames : m'.stack.map (fun f => (f.index, f.advanced)) =
      m.stack.map fun f => (f.index, f.advanced)) : Inv size m' := by
  have hentered : m'.entered = m.entered := by rw [Machine.entered, Machine.entered, log]
  have hlength : m'.stack.length = m.stack.length := by simpa using congrArg List.length frames
  have hindices : m'.stack.map Frame.index = m.stack.map Frame.index := by
    simpa [List.map_map, Function.comp_def] using congrArg (List.map Prod.fst) frames
  refine ⟨?_, ?_, ?_, ?_, fun frame hframe => ?_, ?_, ?_⟩
  · rw [hentered]
    exact h.order
  · rw [hentered]
    exact h.bound
  · rw [hindices, hlength]
    exact h.nested
  · rw [hentered, hlength]
    exact h.depth
  · have hmem := List.mem_map_of_mem (f := fun f : Frame μ => (f.index, f.advanced)) hframe
    rw [frames] at hmem
    have ⟨old, hold, hsame⟩ := List.mem_map.mp hmem
    rw [Prod.mk.injEq] at hsame
    rw [hentered, ← hsame.1, ← hsame.2]
    exact h.advanced old hold
  · rw [hentered, log]
    exact h.called
  · rw [log]
    exact h.chained

theorem Inv.deliver (h : Inv size m) (outcome : Outcome ε) :
    Inv size (deliver pipeline terminal outcome m) := by
  cases hstack : m.stack with
  | nil =>
      have hdeliver : MiddlewareChain.deliver pipeline terminal outcome m =
          { m with outcome := some outcome } := by rw [MiddlewareChain.deliver, hstack]
      rw [hdeliver]
      exact h.same_frames rfl rfl
  | cons caller rest =>
      simp only [MiddlewareChain.deliver, hstack]
      exact h.same_frames rfl (by rw [hstack]; rfl)

theorem Inv.pop (h : Inv size m) {top : Frame μ} {rest : List (Frame μ)}
    (hstack : m.stack = top :: rest) : Inv size { m with stack := rest } := by
  have hdepth := h.depth
  rw [hstack, List.length_cons] at hdepth
  refine ⟨h.order, h.bound, (h.top hstack).2, by change rest.length ≤ m.entered.length; omega,
    fun frame hframe => ?_, h.called, h.chained⟩
  exact h.advanced frame (by rw [hstack]; exact List.mem_cons_of_mem _ hframe)

theorem Inv.called_again (h : Inv size m) {frame : Nat}
    (advanced : frame + 1 < m.entered.length) (caller : Nat) :
    Inv size { m with log := m.log ++ [.nextCalled frame caller] } := by
  have hentered : Machine.entered { m with log := m.log ++ [.nextCalled frame caller] } =
      m.entered := entered_nextCalled m.log frame caller
  refine ⟨?_, ?_, h.nested, ?_, ?_, fun called by' hmem => ?_, h.chained.nextCalled _ _⟩
  · rw [hentered]
    exact h.order
  · rw [hentered]
    exact h.bound
  · rw [hentered]
    exact h.depth
  · rw [hentered]
    exact h.advanced
  · rw [hentered]
    rcases List.mem_append.mp hmem with hold | hnew
    · exact h.called called by' hold
    · cases List.mem_singleton.mp hnew
      exact advanced

theorem mem_setAdvanced {frame : Nat} {stack : List (Frame μ)} {f : Frame μ}
    (h : f ∈ setAdvanced frame stack) :
    ∃ old ∈ stack, f.index = old.index ∧
      f.advanced = if old.index = frame then true else old.advanced := by
  have ⟨old, hold, hset⟩ := List.mem_map.mp h
  refine ⟨old, hold, ?_⟩
  rw [← hset]
  split_ifs
  · exact ⟨rfl, rfl⟩
  · exact ⟨rfl, rfl⟩

theorem Inv.advance (h : Inv size m) {top : Frame μ} {rest : List (Frame μ)}
    (hstack : m.stack = top :: rest) (hlast : top.index + 1 = m.entered.length)
    (behind : top.index < size) :
    Inv size (invoke pipeline terminal (top.index + 1)
      { m with
        stack := setAdvanced top.index m.stack
        log := m.log ++ [.nextCalled top.index top.index] }) := by
  have hdepth : m.stack.length = m.entered.length := by
    have htop := (h.top hstack).1
    rw [hstack, List.length_cons]
    omega
  have hindices : (setAdvanced top.index m.stack).map Frame.index = m.stack.map Frame.index := by
    rw [setAdvanced, List.map_map]
    refine List.map_congr_left fun f _ => ?_
    change Frame.index (if f.index = top.index then { f with advanced := true } else f) = f.index
    split_ifs
    · rfl
    · rfl
  have hlength : (setAdvanced top.index m.stack).length = m.stack.length := by
    rw [setAdvanced, List.length_map]
  let next := invoke pipeline terminal (top.index + 1)
    { m with
      stack := setAdvanced top.index m.stack
      log := m.log ++ [.nextCalled top.index top.index] }
  have hentered : next.entered = m.entered ++ [m.entered.length] := by
    change ((m.log ++ [Entry.nextCalled top.index top.index]) ++
      [Entry.entered (top.index + 1)]).filterMap enteredIndex = _
    rw [List.filterMap_append, entered_nextCalled, hlast]
    rfl
  have hcount : next.entered.length = m.entered.length + 1 := by rw [hentered]; simp
  change Inv size next
  refine ⟨?_, ?_, ?_, ?_, fun frame hframe => ?_, fun frame caller hmem => ?_, ?_⟩
  · rw [hcount, List.range_succ, ← h.order, hentered]
  · rw [hcount]
    omega
  · change (top.index + 1) :: (setAdvanced top.index m.stack).map Frame.index =
      (List.range ((setAdvanced top.index m.stack).length + 1)).reverse
    rw [hindices, hlength, h.nested, List.range_succ, List.reverse_append, hlast, hdepth]
    rfl
  · change (setAdvanced top.index m.stack).length + 1 ≤ next.entered.length
    omega
  · rw [hcount]
    cases List.mem_cons.mp hframe with
    | inl hnew =>
        rw [hnew]
        exact (decide_eq_false (by change ¬ top.index + 1 + 1 < _; omega)).symm
    | inr hold =>
        have ⟨old, hmem, hindex, hflag⟩ := mem_setAdvanced hold
        have hinside := h.index_lt hmem
        rw [hflag, hindex]
        split_ifs with hsame
        · exact (decide_eq_true (by omega)).symm
        · rw [h.advanced old hmem, decide_eq_true (by omega), decide_eq_true (by omega)]
  · rw [hcount]
    have hmem' : Entry.nextCalled frame caller ∈ m.log ++ [.nextCalled top.index top.index] :=
      (List.mem_append.mp hmem).resolve_right (by simp)
    rcases List.mem_append.mp hmem' with hold | hnew
    · exact (h.called frame caller hold).trans (Nat.lt_succ_self _)
    · cases List.mem_singleton.mp hnew
      omega
  · exact (h.chained.nextCalled top.index top.index).entered rfl

theorem Inv.callNext (h : Inv pipeline.middleware.length m) {top : Frame μ}
    {rest : List (Frame μ)} (hstack : m.stack = top :: rest) {frame : Nat}
    (next : callNext pipeline terminal frame
      { m with log := m.log ++ [.nextCalled frame top.index] } = some m') :
    Inv pipeline.middleware.length m' := by
  unfold MiddlewareChain.callNext at next
  split at next
  · cases next
  · next f hfind =>
    split_ifs at next with hterminal hadvanced
    · cases next
      have hmem : f ∈ m.stack := List.mem_of_find?_eq_some hfind
      have hindex : f.index = frame := by simpa using List.find?_some hfind
      have hflag := h.advanced f hmem
      rw [hadvanced, hindex, eq_comm, decide_eq_true_eq] at hflag
      exact (h.called_again hflag top.index).deliver _
    · cases next
      have hmem : f ∈ m.stack := List.mem_of_find?_eq_some hfind
      have hindex : f.index = frame := by simpa using List.find?_some hfind
      have hflag := h.advanced f hmem
      rw [Bool.eq_false_iff.mpr hadvanced, hindex, eq_comm, decide_eq_false_iff_not] at hflag
      have hinside := h.index_lt hmem
      have hdepth := h.depth
      have hbound := h.bound
      have htop := (h.top hstack).1
      rw [hindex] at hinside
      have hframe : frame = top.index := by
        rw [hstack, List.length_cons] at hinside hdepth
        omega
      subst hframe
      exact h.advance hstack (by omega) (by omega)

theorem Inv.step (h : Inv pipeline.middleware.length m)
    (next : step pipeline terminal m = some m') : Inv pipeline.middleware.length m' := by
  unfold MiddlewareChain.step at next
  split at next
  · cases next
  · next top rest hstack =>
    split at next
    · cases next
      exact h.same_frames rfl (by rw [hstack]; rfl)
    · next frame memory _ =>
      have hmemory : Inv pipeline.middleware.length
          { m with stack := { top with memory := memory } :: rest } :=
        h.same_frames rfl (by rw [hstack]; rfl)
      exact hmemory.callNext rfl next
    · cases next
      exact (h.pop hstack).deliver _
    · cases next
      exact (h.pop hstack).deliver _

theorem Inv.run (state : σ) :
    Inv pipeline.middleware.length (run pipeline terminal state) := by
  refine ⟨rfl, ?_, rfl, le_rfl, fun frame hframe => ?_, fun frame caller hmem => ?_, ?_⟩
  · exact Nat.le_add_left 1 _
  · rw [List.mem_singleton.mp hframe]
    rfl
  · cases List.mem_singleton.mp hmem
  · intro index before after hlog
    rcases before with _ | ⟨first, before⟩
    · cases hlog
    · have hlength := congrArg List.length hlog
      simp [MiddlewareChain.run, invoke] at hlength

theorem Reached.inv {state : σ} (reached : Reached pipeline terminal state m) :
    Inv pipeline.middleware.length m := by
  induction reached with
  | refl => exact .run state
  | tail _ next ih => exact ih.step next

theorem state_deliver (outcome : Outcome ε) (m : Machine σ ε μ) :
    (deliver pipeline terminal outcome m).state = m.state := by
  cases hstack : m.stack with
  | nil => simp only [deliver, hstack]
  | cons caller rest => simp only [deliver, hstack]

theorem step_state (next : step pipeline terminal m = some m') :
    m'.state = m.state ∨ ∃ top rest memory, m.stack = top :: rest ∧
      (pipeline.code terminal top.index).move top.memory m.state =
        (.assign m'.state, memory) := by
  unfold step at next
  split at next
  · cases next
  · next top rest hstack =>
    split at next
    · next state memory hmove =>
      cases next
      exact .inr ⟨top, rest, memory, hstack, hmove⟩
    · unfold callNext at next
      split at next
      · cases next
      · split_ifs at next
        · cases next
          exact .inl (state_deliver _ _)
        · cases next
          exact .inl rfl
    · cases next
      exact .inl (state_deliver _ _)
    · cases next
      exact .inl (state_deliver _ _)

theorem Reached.index_le {state : σ} (reached : Reached pipeline terminal state m)
    {frame : Frame μ} (hframe : frame ∈ m.stack) : frame.index ≤ pipeline.middleware.length := by
  have hinside := reached.inv.index_lt hframe
  have hdepth := reached.inv.depth
  have hbound := reached.inv.bound
  omega

theorem refused_of_called (h : Inv pipeline.middleware.length m) {top : Frame μ}
    {rest : List (Frame μ)} (hstack : m.stack = top :: rest) {frame : Nat} {memory : μ}
    (move : (pipeline.code terminal top.index).move top.memory m.state =
      (.callNext frame, memory))
    (live : frame < m.stack.length)
    (before : ∃ caller, Entry.nextCalled frame caller ∈ m.log) :
    step pipeline terminal m = some { m with
      stack := resume pipeline terminal (.error (.logicError calledTwice))
        { top with memory := memory } :: rest
      log := m.log ++ [Entry.nextCalled frame top.index] } := by
  have ⟨caller, hcalled⟩ := before
  have hadvanced := h.called frame caller hcalled
  have hmemory : Inv pipeline.middleware.length
      { m with stack := { top with memory := memory } :: rest } :=
    h.same_frames rfl (by rw [hstack]; rfl)
  have hlive : frame < ({ top with memory := memory } :: rest).length := by
    rw [hstack] at live
    exact live
  have hterminal : frame ≠ pipeline.middleware.length := by
    have hbound := h.bound
    omega
  have ⟨found, hfound, hindex⟩ := hmemory.frame_at hlive
  have hstep : step pipeline terminal m = callNext pipeline terminal frame
      { m with
        stack := { top with memory := memory } :: rest
        log := m.log ++ [Entry.nextCalled frame top.index] } := by
    simp only [step, hstack, move]
  rw [hstep, callNext]
  cases hfind : ({ top with memory := memory } :: rest).find? fun f => f.index = frame with
  | none => exact absurd (by simpa using hindex) (List.find?_eq_none.mp hfind found hfound)
  | some f =>
      have hsame : f.index = frame := by simpa using List.find?_some hfind
      have hflag : f.advanced = true := by
        rw [hmemory.advanced f (List.mem_of_find?_eq_some hfind), hsame]
        exact decide_eq_true hadvanced
      simp only [if_neg hterminal, hflag, if_true]
      rfl

/-- Whatever the middlewares and the terminal do, they are entered in order and at most
once, each by the `next()` of the one before, and a second call of a `Next` throws
without anything else. -/
theorem chain_discipline (pipeline : MiddlewarePipeline σ ε μ) (terminal : Program σ ε μ)
    (state : σ) {m : Machine σ ε μ} (reached : Reached pipeline terminal state m) :
    (∃ count ≤ pipeline.middleware.length + 1, m.entered = List.range count) ∧
      (∀ index before after, m.log = before ++ .entered (index + 1) :: after →
        ∃ earlier, before = earlier ++ [.nextCalled index index]) ∧
      ∀ top rest frame memory, m.stack = top :: rest →
        (pipeline.code terminal top.index).move top.memory m.state =
          (.callNext frame, memory) →
        frame < m.stack.length → (∃ caller, Entry.nextCalled frame caller ∈ m.log) →
        step pipeline terminal m = some { m with
          stack := resume pipeline terminal (.error (.logicError calledTwice))
            { top with memory := memory } :: rest
          log := m.log ++ [.nextCalled frame top.index] } :=
  ⟨⟨_, reached.inv.bound, reached.inv.order⟩, reached.inv.chained,
    fun _ _ _ _ hstack move live before => refused_of_called reached.inv hstack move live before⟩

def retrying : Program Unit Unit Nat := ⟨0, fun k _ => (.callNext 0, k + 1), fun k _ => k⟩

def throwing : Program Unit Unit Nat := ⟨0, fun k _ => (.raise (.thrown ()), k), fun k _ => k⟩

theorem chain_discipline_retrying :
    let pipeline : MiddlewarePipeline Unit Unit Nat := ⟨[retrying], by decide⟩
    let m : Machine Unit Unit Nat :=
      ⟨[⟨0, true, 1⟩], (), none, [.entered 0, .nextCalled 0 0, .entered 1]⟩
    (∃ count ≤ pipeline.middleware.length + 1, m.entered = List.range count) ∧
      (∀ index before after, m.log = before ++ .entered (index + 1) :: after →
        ∃ earlier, before = earlier ++ [.nextCalled index index]) ∧
      ∀ top rest frame memory, m.stack = top :: rest →
        (pipeline.code throwing top.index).move top.memory m.state =
          (.callNext frame, memory) →
        frame < m.stack.length → (∃ caller, Entry.nextCalled frame caller ∈ m.log) →
        step pipeline throwing m = some { m with
          stack := resume pipeline throwing (.error (.logicError calledTwice))
            { top with memory := memory } :: rest
          log := m.log ++ [.nextCalled frame top.index] } :=
  chain_discipline _ _ () (.tail (.tail .refl rfl) rfl)

end ApiGateway.MiddlewareChain
