import LanguageClient.Proofs.Passage
/-!
The events of one connection. A connection that opened tells of its opening, of every frame that was
read in the order of reading, and of its end, and the end is told once. Late work of an earlier
connection tells nothing, and every connection is told apart from the others by its generation.
-/
namespace LanguageClient.Client
open Relation Transport Rpc Json Session

def event? (g : Nat) : Entry → Option Transport.Event
  | .emitted h event => if h = g then some event else none
  | _ => none

def frame? (g : Nat) : Entry → Option String
  | .received h (.ok frame) => if h = g then some frame else none
  | _ => none

def events (g : Nat) (journal : List Entry) : List Transport.Event := journal.filterMap (event? g)

def frames (g : Nat) (journal : List Entry) : List String := journal.filterMap (frame? g)

/-- What has become of a connection. One that fails may still be closed by a handler that hears of
the failure. -/
inductive Fate where
  | unopened
  | live
  | failing (text : String)
  | left
  | finished
  | failed (text : String)
  | failedAndLeft (text : String)
  deriving DecidableEq

namespace Fate

/-- The first thing that ends a connection seals its fate. -/
def after (g : Nat) (e : Entry) : Fate → Fate
  | unopened =>
    match e with
    | .emitted h .opened => if h = g then live else unopened
    | _ => unopened
  | live =>
    match e with
    | .hungUp => left
    | .streamEnded h => if h = g then finished else live
    | .received h (.error cause) => if h = g then failing cause.message else live
    | .writeFailed h text => if h = g then failing text else live
    | _ => live
  | failing text =>
    match e with
    | .hungUp => failedAndLeft text
    | .emitted h (.closed _) => if h = g then failed text else failing text
    | _ => failing text
  | fate => fate

def isOver : Fate → Bool
  | unopened | live | failing _ => false
  | left | finished | failed _ | failedAndLeft _ => true

/-- What a connection tells at its end. -/
def farewell : Fate → List Transport.Event
  | unopened | live => []
  | failing text => [.failed text]
  | left => [.closed .byClient]
  | finished => [.closed .byPeer]
  | failed text => [.failed text, .closed .byFailure]
  | failedAndLeft text => [.failed text, .closed .byClient]

end Fate

def fate (g : Nat) (journal : List Entry) : Fate := journal.foldl (fun f e => f.after g e) .unopened

/-- All that a journal says about a connection. -/
structure Course where
  events : List Transport.Event
  frames : List String
  fate : Fate

def course (g : Nat) (journal : List Entry) : Course :=
  ⟨events g journal, frames g journal, fate g journal⟩

def Course.after (g : Nat) (e : Entry) (c : Course) : Course :=
  ⟨c.events ++ (event? g e).toList, c.frames ++ (frame? g e).toList, c.fate.after g e⟩

theorem course_concat (g : Nat) (journal : List Entry) (e : Entry) :
    course g (journal ++ [e]) = (course g journal).after g e := by
  simp only [course, Course.after, events, frames, fate, List.filterMap_append, List.foldl_append,
    List.foldl_cons, List.foldl_nil, Course.mk.injEq, List.append_cancel_left_eq, and_true]
  constructor
  · cases h : event? g e <;> simp [h]
  · cases h : frame? g e <;> simp [h]

/-- Entries that tell nothing about any connection. -/
def Entry.isQuiet : Entry → Bool
  | .emitted .. | .received .. | .streamEnded _ | .writeFailed .. | .hungUp => false
  | _ => true

theorem course_quiet {e : Entry} (h : e.isQuiet = true) (g : Nat) (journal : List Entry) :
    course g (journal ++ [e]) = course g journal := by
  have he : event? g e = none := by cases e <;> first | rfl | cases h
  have hf : frame? g e = none := by cases e <;> first | rfl | cases h
  have ha : ∀ f : Fate, f.after g e = f := by
    intro f
    cases f <;> cases e <;> first | rfl | cases h
  rw [course_concat, Course.after, he, hf, ha, Option.toList_none, Option.toList_none,
    List.append_nil, List.append_nil]

theorem course_of_quiet {more : List Entry} (h : ∀ e ∈ more, e.isQuiet = true) (g : Nat)
    (journal : List Entry) : course g (journal ++ more) = course g journal := by
  induction more generalizing journal with
  | nil => rw [List.append_nil]
  | cons e more ih =>
    obtain ⟨he, hmore⟩ := List.forall_mem_cons.mp h
    rw [List.append_cons, ih hmore, course_quiet he]

theorem Entry.IsMinor.isQuiet {P : String → Prop} {e : Entry} (h : e.IsMinor P) : e.isQuiet = true := by
  cases e <;> first | rfl | cases h

theorem fate_append (g : Nat) (journal more : List Entry) :
    fate g (journal ++ more) = more.foldl (fun f e => f.after g e) (fate g journal) := List.foldl_append

theorem Fate.foldl_of_isOver {f : Fate} (h : f.isOver = true) (g : Nat) (more : List Entry) :
    more.foldl (fun f e => f.after g e) f = f := by
  induction more with
  | nil => rfl
  | cons e more ih =>
    have hstep : f.after g e = f := by cases f <;> first | rfl | cases h
    rw [List.foldl_cons, hstep, ih]

/-- Only its opening makes something of a connection. -/
private theorem Fate.after_eq_unopened {g : Nat} {e : Entry} {f : Fate} :
    f.after g e = .unopened ↔ f = .unopened ∧ e ≠ .emitted g .opened := by
  fun_cases Fate.after g e f <;> grind

private theorem Fate.foldl_eq_unopened {g : Nat} {f : Fate} {journal : List Entry} :
    journal.foldl (fun f e => f.after g e) f = .unopened ↔
      f = .unopened ∧ .emitted g .opened ∉ journal := by
  induction journal generalizing f with
  | nil => simp
  | cons e journal ih =>
    rw [List.foldl_cons, ih, Fate.after_eq_unopened, List.mem_cons, not_or, and_assoc, ne_comm]

theorem opened_mem_events {g : Nat} {journal : List Entry} :
    Event.opened ∈ events g journal ↔ .emitted g .opened ∈ journal := by
  rw [events, List.mem_filterMap]
  constructor
  · rintro ⟨e, he, hevent⟩
    cases e with
    | emitted h event =>
      rw [event?, Option.ite_none_right_eq_some] at hevent
      obtain ⟨rfl, hevent⟩ := hevent
      exact Option.some.inj hevent ▸ he
    | _ => cases hevent
  · exact fun h => ⟨_, h, if_pos rfl⟩

/-- A connection has come to something once it has told of its opening. -/
theorem fate_eq_unopened {g : Nat} {journal : List Entry} :
    fate g journal = .unopened ↔ Event.opened ∉ events g journal := by
  rw [opened_mem_events, fate, Fate.foldl_eq_unopened]
  exact and_iff_right rfl

/-- A connection that is no more, or that never was: it has told all it had to tell. An attempt that
came to nothing has told that, and no more. -/
def Course.Over (c : Course) : Prop :=
  (c.fate = .unopened ∧ Event.opened ∉ c.events ∧ c.frames = [] ∧ c.events.length ≤ 1) ∨
    (c.fate.isOver = true ∧ c.events = .opened :: c.frames.map .message ++ c.fate.farewell)

/-- The fate of the open connection, given the failure that is being told at present. -/
def Fate.ofFailure : Option String → Fate
  | none => .live
  | some text => .failing text

/-- Every connection has told what its course demands. Handlers may be hearing of a failure of the
open connection, which is then still open. -/
structure Told (failure : Option String) (s : State) : Prop where
  ahead : ∀ g, s.transport.generation < g → course g s.journal = ⟨[], [], .unopened⟩
  attempt : s.transport.state = .connecting →
    course s.transport.generation s.journal = ⟨[], [], .unopened⟩
  present : s.transport.state = .opened → ∃ read, course s.transport.generation s.journal =
    ⟨.opened :: read.map .message ++ (Fate.ofFailure failure).farewell, read, .ofFailure failure⟩
  past : ∀ g, g ≤ s.transport.generation →
    (g = s.transport.generation → s.transport.state = .disconnected) → (course g s.journal).Over
  known : ∀ g c, s.connection? g = some c → g ≤ s.transport.generation ∧
    (g = s.transport.generation → s.transport.state ≠ .connecting) ∧
    (c.reader = .running → g = s.transport.generation ∧ s.transport.state = .opened)
  served : s.transport.state = .opened → Work.reader s.transport.generation ∈ s.transport.tasks

/-- What is told of connections stays as it is while the transport does, apart from queues and readers
that stop. -/
theorem Told.of_eq {failure : Option String} {s t : State} (hs : Told failure s)
    (state : t.transport.state = s.transport.state)
    (generation : t.transport.generation = s.transport.generation)
    (tasks : t.transport.tasks = s.transport.tasks)
    (connections : ConnectionsFrom s t)
    (courses : ∀ g, course g t.journal = course g s.journal) : Told failure t where
  ahead g h := by rw [courses]; exact hs.ahead g (generation ▸ h)
  attempt h := by rw [courses, generation]; exact hs.attempt (state ▸ h)
  present h := by rw [courses, generation]; exact hs.present (state ▸ h)
  past g h h' := by
    rw [courses]
    exact hs.past g (generation ▸ h) fun he => state ▸ h' (generation ▸ he)
  known g c hc := by
    obtain ⟨d, hd, hr⟩ := connections g c hc
    obtain ⟨h1, h2, h3⟩ := hs.known g d hd
    rw [generation, state]
    exact ⟨h1, h2, fun h => h3 (hr h)⟩
  served h := by rw [tasks, generation]; exact hs.served (state ▸ h)

theorem Told.step {P : String → Prop} {failure : Option String} {s t : State} (h : Step P s t)
    (hs : Told failure s) : Told failure t := by
  have hminor := h.minor
  obtain ⟨more, hj, hmore⟩ := hminor.journal
  refine hs.of_eq hminor.state hminor.generation hminor.tasks hminor.connections fun g => ?_
  rw [hj, course_of_quiet fun e he => (hmore e he).isQuiet]

theorem Told.steps {P : String → Prop} {failure : Option String} {s t : State} (h : Steps P s t)
    (hs : Told failure s) : Told failure t := h.keeps (fun _ _ h => Told.step h) hs

private theorem Told.down {failure : Option String} {s t : State} (hs : Told failure s)
    (state : t.transport.state = .disconnected)
    (generation : t.transport.generation = s.transport.generation)
    (connections : ∀ g c, t.connection? g = some c → ∃ d, s.connection? g = some d ∧
      (c.reader = .running → d.reader = .running ∧ Work.reader g ∉ s.transport.tasks))
    (other : ∀ g, g ≠ s.transport.generation → course g t.journal = course g s.journal)
    (own : (course s.transport.generation t.journal).Over) : Told none t where
  ahead g h := by
    rw [generation] at h
    rw [other g (by omega)]
    exact hs.ahead g h
  attempt h := by rw [state] at h; cases h
  present h := by rw [state] at h; cases h
  past g h _ := by
    rw [generation] at h
    by_cases he : g = s.transport.generation
    · exact he ▸ own
    · rw [other g he]
      exact hs.past g h fun h => absurd h he
  known g c hc := by
    obtain ⟨d, hd, hr⟩ := connections g c hc
    obtain ⟨h1, _, h3⟩ := hs.known g d hd
    rw [generation, state]
    refine ⟨h1, fun _ => by decide, fun h => ?_⟩
    obtain ⟨hg, ho⟩ := h3 (hr h).1
    exact absurd (hg ▸ hs.served ho) (hr h).2
  served h := by rw [state] at h; cases h

theorem Told.idle {failure : Option String} {s : State} (hs : Told failure s) {g : Nat}
    (h : g = s.transport.generation → s.transport.state ≠ .opened) :
    fate g s.journal = .unopened ∨ (fate g s.journal).isOver = true := by
  have hover : (course g s.journal).Over → fate g s.journal = .unopened ∨
      (fate g s.journal).isOver = true := by
    rintro (⟨hf, _⟩ | ⟨hf, _⟩)
    · exact .inl hf
    · exact .inr hf
  rcases Nat.lt_trichotomy g s.transport.generation with hlt | rfl | hgt
  · exact hover (hs.past g (Nat.le_of_lt hlt) fun he => by omega)
  · cases hst : s.transport.state with
    | opened => exact absurd hst (h rfl)
    | connecting => exact .inl (congrArg Course.fate (hs.attempt hst))
    | disconnected => exact hover (hs.past _ (Nat.le_refl _) fun _ => hst)
  · exact .inl (congrArg Course.fate (hs.ahead g hgt))

private theorem course_idle {g : Nat} {journal : List Entry} {e : Entry} (he : event? g e = none)
    (hf : frame? g e = none)
    (hi : fate g journal = .unopened ∨ (fate g journal).isOver = true) :
    course g (journal ++ [e]) = course g journal := by
  have ha : (course g journal).fate.after g e = (course g journal).fate := by
    change (fate g journal).after g e = fate g journal
    rcases hi with h | h
    · rw [h]
      cases e with
      | emitted k event =>
        have hk : k ≠ g := by
          rintro rfl
          simp [event?] at he
        cases event <;> first | rfl | exact if_neg hk
      | _ => rfl
    · cases hfate : fate g journal <;> rw [hfate] at h <;> first | rfl | cases h
  rw [course_concat, Course.after, he, hf, ha, Option.toList_none, Option.toList_none,
    List.append_nil, List.append_nil]

private theorem Told.closed {failure other : Option String} {s : State} (hs : Told failure s)
    (h : s.transport.state ≠ .opened) : Told other s :=
  { hs with present := fun h' => absurd h' h }

private theorem event?_other {g h : Nat} (hg : h ≠ g) (event : Transport.Event) :
    event? g (.emitted h event) = none := if_neg hg

private theorem Told.takenDown {failure : Option String} {s t : State} (hs : Told failure s)
    (transport : t.transport = s.transport) (reason : CloseReason)
    (other : ∀ g, g ≠ s.transport.generation → course g t.journal = course g s.journal)
    (own : ((course s.transport.generation t.journal).after s.transport.generation
      (.emitted s.transport.generation (.closed reason))).Over) :
    Told none (t.takeDown.record (.emitted s.transport.generation (.closed reason))) := by
  obtain ⟨_, _, ht⟩ := State.takeDown_eq t
  have hj : (t.takeDown.record (.emitted s.transport.generation (.closed reason))).journal =
      t.journal ++ [.emitted s.transport.generation (.closed reason)] := by
    rw [ht]
    rfl
  refine hs.down (by rw [State.record, ht]) (by rw [State.record, ht, transport])
    (fun g c hc => ?_) (fun g hg => ?_) (by rw [hj, course_concat]; exact own)
  · obtain ⟨d, hd, hr, _⟩ := takeDown_served (s := t) hc
    rw [State.connection?, transport] at hd
    rw [transport] at hr
    exact ⟨d, hd, hr⟩
  · have hf : fate g t.journal = fate g s.journal := congrArg Course.fate (other g hg)
    have hi := hs.idle fun he => absurd he hg
    rw [hj, course_idle (event?_other (Ne.symm hg) _) rfl (hf ▸ hi), other g hg]

theorem Told.hangUp {failure : Option String} {s : State} (hs : Told failure s) :
    Told failure s.hangUp := by
  by_cases hd : s.transport.state = .disconnected
  · rw [State.hangUp_of_down hd]
    refine hs.of_eq rfl rfl rfl (connections_self rfl) fun g => course_idle rfl rfl (hs.idle ?_)
    rw [hd]
    exact fun _ => by decide
  · have hdown : Told none ((s.record .hungUp).takeDown.record
        (.emitted s.transport.generation (.closed .byClient))) := by
      refine hs.takenDown (t := s.record .hungUp) rfl _ (fun g hg =>
        course_idle (e := .hungUp) rfl rfl (hs.idle fun he => absurd he hg)) ?_
      rw [State.record, course_concat]
      cases hst : s.transport.state with
      | disconnected => exact absurd hst hd
      | connecting =>
        rw [hs.attempt hst]
        refine .inl ⟨rfl, ?_, rfl, ?_⟩ <;> simp [Course.after, event?]
      | opened =>
        obtain ⟨read, hc⟩ := hs.present hst
        rw [hc]
        cases failure with
        | none =>
          refine .inr ⟨rfl, ?_⟩
          simp [Course.after, event?, frame?, Fate.ofFailure, Fate.after, Fate.farewell]
        | some text =>
          refine .inr ⟨rfl, ?_⟩
          simp [Course.after, event?, frame?, Fate.ofFailure, Fate.after, Fate.farewell]
    rw [State.hangUp_of_up hd]
    refine hdown.closed ?_
    obtain ⟨_, _, ht⟩ := State.takeDown_eq (s.record .hungUp)
    rw [ht]
    exact (by decide : ConnectionState.disconnected ≠ .opened)

theorem Told.hears {P : String → Prop} {R : Response → Prop} {failure : Option String}
    {s t : State} (h : Hears P R s t) (hs : Told failure s) : Told failure t :=
  h.keeps_of_steps (fun _ _ h => Told.step h) (fun _ h => h.hangUp) hs

/-- Telling of an event keeps to what has been told, once the event itself does. -/
theorem Told.emit {failure : Option String} {s : State} {close : State → State}
    (hc : Closes (fun _ => True) close) (g : Nat) (event : Transport.Event)
    (hs : Told failure (s.record (.emitted g event))) :
    Told failure (State.emitWith close g event s) :=
  hs.hears (emitWith_hears hc g event (heeds_anything s))

private theorem course_append (g : Nat) (journal more : List Entry) :
    course g (journal ++ more) = more.foldl (fun c e => c.after g e) (course g journal) := by
  induction more generalizing journal with
  | nil => rw [List.append_nil, List.foldl_nil]
  | cons e more ih =>
    have happ : journal ++ e :: more = journal ++ [e] ++ more := by simp
    rw [happ, ih, course_concat, List.foldl_cons]

private theorem course_idles {g : Nat} {journal more : List Entry}
    (hm : ∀ e ∈ more, event? g e = none ∧ frame? g e = none)
    (hi : fate g journal = .unopened ∨ (fate g journal).isOver = true) :
    course g (journal ++ more) = course g journal := by
  induction more generalizing journal with
  | nil => rw [List.append_nil]
  | cons e more ih =>
    have he := hm e List.mem_cons_self
    have h1 := course_idle he.1 he.2 hi
    have hf : fate g (journal ++ [e]) = fate g journal := congrArg Course.fate h1
    have h2 : course g (journal ++ [e] ++ more) = course g (journal ++ [e]) :=
      ih (fun d hd => hm d (List.mem_cons_of_mem e hd)) (hf ▸ hi)
    rw [List.append_assoc] at h2
    exact h2.trans h1

private theorem Told.tell {failure : Option String} {s t : State} (hs : Told failure s)
    (hopen : s.transport.state = .opened) (more : List Entry) (read : List String)
    (other : Option String) (transport : t.transport = s.transport)
    (journal : t.journal = s.journal ++ more)
    (hquiet : ∀ g, g ≠ s.transport.generation → ∀ e ∈ more, event? g e = none ∧ frame? g e = none)
    (hc : more.foldl (fun c e => c.after s.transport.generation e)
        (course s.transport.generation s.journal) =
      ⟨.opened :: read.map .message ++ (Fate.ofFailure other).farewell, read, .ofFailure other⟩) :
    Told other t := by
  have hother : ∀ g, g ≠ s.transport.generation → course g t.journal = course g s.journal :=
    fun g hg => by rw [journal, course_idles (hquiet g hg) (hs.idle fun he => absurd he hg)]
  refine ⟨fun g h => ?_, fun h => ?_, fun _ => ⟨read, ?_⟩, fun g h h' => ?_, ?_, ?_⟩
  · rw [transport] at h
    rw [hother g (Nat.ne_of_gt h)]
    exact hs.ahead g h
  · rw [transport, hopen] at h
    cases h
  · rw [transport, journal, course_append, hc]
  · rw [transport] at h h'
    have hg : g ≠ s.transport.generation := fun he => by
      have hd := h' he
      rw [hopen] at hd
      cases hd
    rw [hother g hg]
    exact hs.past g h fun he => absurd he hg
  · intro g c hc
    rw [State.connection?, transport] at hc
    rw [transport]
    exact hs.known g c hc
  · rw [transport]
    exact hs.served

theorem Told.reading {failure : Option String} {s : State} (hs : Told failure s) {g : Nat}
    (h : s.reading g = true) : g = s.transport.generation ∧ s.transport.state = .opened := by
  unfold State.reading at h
  split at h
  · rename_i c hc
    exact (hs.known g c hc).2.2 (by simpa using h)
  · cases h

private theorem Told.readFrame {s : State} (hs : Told none s) {g : Nat} (h : s.reading g = true)
    (frame : String) : Told none (s.readFrame g frame) := by
  obtain ⟨rfl, hopen⟩ := hs.reading h
  obtain ⟨read, hc⟩ := hs.present hopen
  refine Told.emit closes_disconnect _ _ (hs.tell hopen
    [.received s.transport.generation (.ok frame), .emitted s.transport.generation (.message frame)]
    (read ++ [frame]) none rfl ?_ (fun g hg e he => ?_) ?_)
  · simp [State.record]
  · simp only [List.mem_cons, List.not_mem_nil, or_false] at he
    rcases he with rfl | rfl
    · exact ⟨rfl, if_neg (Ne.symm hg)⟩
    · exact ⟨if_neg (Ne.symm hg), rfl⟩
  · rw [hc]
    simp [Course.after, event?, frame?, Fate.ofFailure, Fate.after, Fate.farewell]

private theorem Told.finishReading {s : State} (hs : Told none s) {g : Nat}
    (h : s.reading g = true) : Told none (s.finishReading g) := by
  obtain ⟨rfl, hopen⟩ := hs.reading h
  obtain ⟨read, hc⟩ := hs.present hopen
  have hup : s.transport.state ≠ .disconnected := by rw [hopen]; decide
  have hshut := State.shut_of_current (s := s.record (.streamEnded s.transport.generation))
    (g := s.transport.generation) rfl hup .byPeer
  refine Told.steps (P := fun _ => True) (chores_endReader _ _).steps ?_
  rw [hshut]
  refine Told.emit closes_id _ _ (hs.takenDown (t := s.record (.streamEnded s.transport.generation)) rfl
    .byPeer (fun g hg => course_idle (e := .streamEnded s.transport.generation) rfl rfl
      (hs.idle fun he => absurd he hg)) ?_)
  rw [State.record, course_concat, hc]
  refine .inr ⟨?_, ?_⟩
  · simp [Course.after, Fate.ofFailure, Fate.after, Fate.isOver]
  · simp [Course.after, event?, frame?, Fate.ofFailure, Fate.after, Fate.farewell]

private theorem hears_transport {P : String → Prop} {R : Response → Prop} {s t : State}
    (h : Hears P R s t) :
    t.transport.generation = s.transport.generation ∧
      (t.transport.state = s.transport.state ∨ t.transport.state = .disconnected) := by
  refine h.keeps_of_steps (Q := fun t => t.transport.generation = s.transport.generation ∧
    (t.transport.state = s.transport.state ∨ t.transport.state = .disconnected)) ?_ ?_ ⟨rfl, .inl rfl⟩
  · rintro t u hstep ⟨hg, ht⟩
    have hminor := hstep.minor
    rw [hminor.generation, hminor.state]
    exact ⟨hg, ht⟩
  · rintro t ⟨hg, ht⟩
    by_cases hd : t.transport.state = .disconnected
    · rw [State.hangUp_of_down hd]
      exact ⟨hg, ht⟩
    · obtain ⟨_, _, htd⟩ := State.takeDown_eq (t.record .hungUp)
      rw [State.hangUp_of_up hd, htd]
      exact ⟨hg, .inr rfl⟩

/-- A failure of the open connection is told, and then its end, unless a handler that heard of the
failure has closed the connection. -/
private theorem Told.fail {s : State} (hs : Told none s) (hopen : s.transport.state = .opened)
    {e : Entry} {text : String} (hquiet : ∀ g, event? g e = none ∧ frame? g e = none)
    (hfails : Fate.live.after s.transport.generation e = .failing text) :
    Told none ((s.record e).failConnection s.transport.generation text) := by
  obtain ⟨read, hc⟩ := hs.present hopen
  have hcur : (s.record e).isCurrent s.transport.generation = true := by
    simp [State.isCurrent, State.record, hopen]
  have hfailing : Told (some text) (((s.record e).warn "transport failure").emit
      s.transport.generation (.failed text)) := by
    refine Told.emit closes_disconnect _ _ (hs.tell hopen
      [e, .note ⟨.warn, "transport failure"⟩, .emitted s.transport.generation (.failed text)]
      read (some text) rfl ?_ (fun g hg d hd => ?_) ?_)
    · simp [State.record, State.warn]
    · simp only [List.mem_cons, List.not_mem_nil, or_false] at hd
      rcases hd with rfl | rfl | rfl
      · exact hquiet g
      · exact ⟨rfl, rfl⟩
      · exact ⟨if_neg (Ne.symm hg), rfl⟩
    · have hq := hquiet s.transport.generation
      rw [hc]
      simp only [List.foldl_cons, List.foldl_nil, Course.after, hq.1, hq.2, Fate.ofFailure, hfails]
      simp [event?, frame?, Fate.after, Fate.farewell]
  have htransport := hears_transport (emitWith_hears (P := fun _ => True) closes_disconnect
    s.transport.generation (.failed text) (heeds_anything ((s.record e).warn "transport failure")))
  rw [State.failConnection, if_pos hcur]
  change Told none (State.shut _ _ (State.emitWith _ _ _ _))
  change Told (some text) (State.emitWith _ _ _ _) at hfailing
  generalize State.emitWith State.disconnect s.transport.generation (.failed text)
    ((s.record e).warn "transport failure") = t at hfailing htransport ⊢
  obtain ⟨hg, ht | ht⟩ := htransport
  · have hopen' : t.transport.state = .opened := ht.trans hopen
    have hg' : t.transport.generation = s.transport.generation := hg
    have hup : t.transport.state ≠ .disconnected := by rw [hopen']; decide
    obtain ⟨read', hc'⟩ := hfailing.present hopen'
    rw [State.shut_of_current hg' hup, ← hg']
    refine Told.emit closes_id _ _ (hfailing.takenDown (t := t) rfl .byFailure (fun g hg => rfl) ?_)
    rw [hc']
    refine .inr ⟨?_, ?_⟩
    · simp [Course.after, Fate.ofFailure, Fate.after, Fate.isOver]
    · simp [Course.after, event?, frame?, Fate.ofFailure, Fate.after, Fate.farewell]
  · rw [State.shut_of_stale (.inr ht)]
    exact hfailing.closed (by rw [ht]; decide)

private theorem Told.failReading {s : State} (hs : Told none s) {g : Nat} (h : s.reading g = true)
    (e : Fault) : Told none (s.failReading g e) := by
  obtain ⟨rfl, hopen⟩ := hs.reading h
  refine Told.steps (P := fun _ => True) (chores_endReader _ _).steps ?_
  exact hs.fail hopen (fun g => ⟨rfl, rfl⟩) (if_pos rfl)

/-- What was accepted for a connection may be written after its end. That this fails is told only
while the connection is open. -/
private theorem Told.failWriting {s : State} (hs : Told none s) {g : Nat} {c : Connection}
    (hc : s.connection? g = some c) (text : String) : Told none (s.failWriting g text) := by
  refine Told.steps (P := fun _ => True) (chores_endWriter _ _).steps ?_
  by_cases hopen : g = s.transport.generation ∧ s.transport.state = .opened
  · obtain ⟨rfl, hopen⟩ := hopen
    exact hs.fail hopen (fun g => ⟨rfl, rfl⟩) (if_pos rfl)
  · have hcur : (s.record (.writeFailed g text)).isCurrent g = false := by
      have hnot := (hs.known g c hc).2.1
      cases hst : s.transport.state <;> simp_all [State.isCurrent, State.record]
    rw [State.failConnection, hcur]
    refine hs.of_eq rfl rfl rfl (connections_self rfl) fun k => ?_
    by_cases hk : k = g
    · exact course_idle rfl rfl (hs.idle fun hk' hst => hopen ⟨hk ▸ hk', hst⟩)
    · have ha : ∀ f : Fate, f.after k (.writeFailed g text) = f := fun f => by
        cases f <;> first | rfl | exact if_neg (Ne.symm hk)
      exact (course_concat k s.journal _).trans (by
        rw [Course.after, ha]
        simp [event?, frame?])

private theorem Told.readItem {s : State} (hs : Told none s) (g : Nat) (item : Outcome String) :
    Told none (s.readItem g item) := by
  unfold State.readItem
  split
  · rename_i h
    cases item with
    | ok frame => exact hs.readFrame h frame
    | error e => exact hs.failReading h e
  · exact hs

private theorem Told.failWrite {s : State} (hs : Told none s) (g : Nat) (text : String) :
    Told none (s.failWrite g text) := by
  rw [State.failWrite, State.writing?]
  cases hc : s.connection? g with
  | none => exact hs
  | some c =>
    have hq : (s.unqueue g).connection? g = some { c with queue := c.queue.tail } := by
      rw [State.connection?] at hc
      simp only [State.unqueue, State.connection?, State.modifyConnection, Keyed.get?_modify, hc,
        if_true, Option.map_some]
    split
    · exact (hs.steps (P := fun _ => True) (chores_unqueue g s).steps).failWriting hq text
    · exact hs

private theorem Told.beginAttempt {s : State} (hs : Told none s) : Told none s.beginAttempt.2 := by
  rw [State.beginAttempt]
  split
  · rename_i hd
    have hdown : s.transport.state = .disconnected := by simpa using hd
    have hno : ConnectionState.connecting ≠ .opened := by decide
    refine ⟨fun g h => ?_, fun _ => ?_, fun h => absurd h hno, fun g h h' => ?_,
      fun g c hc => ?_, fun h => absurd h hno⟩
    · exact hs.ahead g (by simp only [State.modifyTransport] at h; omega)
    · exact hs.ahead _ (Nat.lt_succ_self _)
    · simp only [State.modifyTransport] at h h'
      have hg : g ≠ s.transport.generation + 1 := fun he => by cases h' he
      exact hs.past g (by omega) fun _ => hdown
    · obtain ⟨h1, _, h3⟩ := hs.known g c hc
      simp only [State.modifyTransport]
      refine ⟨by omega, fun he => by omega, fun hr => ?_⟩
      have hst := (h3 hr).2
      rw [hdown] at hst
      cases hst
  · exact hs

private theorem Told.failAttempt {s : State} (hs : Told none s) (g : Nat) (e : Fault) :
    Told none (s.failAttempt g e) := by
  rw [State.failAttempt]
  split
  · rename_i ha
    obtain ⟨rfl, hst⟩ := isAttempting_iff.mp ha
    refine Told.emit closes_disconnect _ _ (hs.down rfl rfl (fun g c hc => ⟨c, hc, fun h => ?_⟩)
      (fun g hg => ?_) ?_)
    · have hopen := ((hs.known g c hc).2.2 h).2
      rw [hst] at hopen
      cases hopen
    · exact course_idle (event?_other (Ne.symm hg) _) rfl (hs.idle fun he => absurd he hg)
    · change (course _ (s.journal ++ [_])).Over
      rw [course_concat, hs.attempt hst]
      refine .inl ⟨rfl, ?_, rfl, ?_⟩ <;> simp [Course.after, event?]
  · exact hs

private theorem Told.establish {s : State} (hs : Told none s) (l : Nat)
    (h : s.transport.state = .connecting) :
    Told none ((s.establish s.transport.generation l).record
      (.emitted s.transport.generation .opened)) := by
  obtain ⟨tasks, c, _, he⟩ := State.establish_eq s.transport.generation l s
  have ht := congrArg State.transport he
  have hj : (s.establish s.transport.generation l).journal = s.journal := by rw [he]
  clear he
  have hother : ∀ g, g ≠ s.transport.generation →
      course g (s.journal ++ [.emitted s.transport.generation .opened]) = course g s.journal :=
    fun g hg => course_idle (event?_other (Ne.symm hg) _) rfl (hs.idle fun he => absurd he hg)
  generalize s.establish s.transport.generation l = t at ht hj ⊢
  refine ⟨fun g hg => ?_, fun hc => ?_, fun _ => ⟨[], ?_⟩, fun g hg h' => ?_, fun g d hd => ?_,
    fun _ => ?_⟩ <;> simp only [State.record, ht, hj] at *
  · exact (hother g (Nat.ne_of_gt hg)).trans (hs.ahead g hg)
  · cases hc
  · rw [course_concat, hs.attempt h]
    simp [Course.after, event?, frame?, Fate.after, Fate.ofFailure, Fate.farewell]
  · have hg' : g ≠ s.transport.generation := fun he => absurd (h' he) (by decide)
    rw [hother g hg']
    exact hs.past g hg fun he => absurd he hg'
  · simp only [State.connection?, Keyed.get?_put] at hd
    split at hd
    · rename_i hk
      subst hk
      exact ⟨Nat.le_refl _, fun _ => by decide, fun _ => ⟨rfl, trivial⟩⟩
    · obtain ⟨h1, _, h3⟩ := hs.known g d hd
      refine ⟨h1, fun _ => by decide, fun hr => ?_⟩
      have hopen := (h3 hr).2
      rw [h] at hopen
      cases hopen
  · exact List.mem_cons_self

private theorem Told.completeAttempt {s : State} (hs : Told none s) (g l : Nat) :
    Told none (s.completeAttempt g l).2 := by
  rw [State.completeAttempt]
  split
  · rename_i ha
    obtain ⟨rfl, hst⟩ := isAttempting_iff.mp ha
    exact Told.emit closes_disconnect _ _ (hs.establish l hst)
  · exact Told.steps (P := fun _ => True) (s := s) (t := s.dropLink l)
      (steps_aside .refl rfl rfl rfl rfl) hs

private theorem Told.filing {failure : Option String} {P : String → Prop} {s t : State}
    (h : Filing P s t)
    (hs : Told failure s) : Told failure t := by
  cases h with
  | send frame s _ => exact hs.step (.send (P := fun _ => True) frame s trivial)
  | note n s => exact hs.of_eq rfl rfl rfl (connections_self rfl) fun g => course_quiet rfl g _
  | session c s => exact hs.of_eq rfl rfl rfl (connections_self rfl) fun g => rfl
  | shutDown s => exact hs.of_eq rfl rfl rfl (connections_self rfl) fun g => course_quiet rfl g _

/-- Every move keeps to what has been told. -/
theorem Told.move (m : Move) (s : State) (hs : Told none s) : Told none (m.apply s) := by
  by_cases hc : m.concernsConnections = true
  · cases m with
    | connect => exact hs.beginAttempt
    | found g l => exact hs.completeAttempt g l
    | missed g e => exact hs.failAttempt g e
    | disconnect =>
      exact hs.hears (Reacts.hears (R := fun _ => False) (closes_disconnect s (heeds_anything s)))
    | read g item => exact hs.readItem g item
    | readEnd g =>
      simp only [Move.apply]
      split
      · rename_i h
        exact hs.finishReading h
      · exact hs
    | failWrite g text => exact hs.failWrite g text
    | hear frame => exact hs.hears (handleFrame_hears closes_disconnect frame (heeds_anything s))
    | _ => cases hc
  · by_cases hd : m.concernsDocuments = true
    · exact (m.filings hd s).keeps (fun _ _ h => Told.filing h) hs
    · exact hs.steps (m.steps own_anything (by simpa using hc) (by simpa using hd) m.sends_anything s)

theorem told_new (layer : Layer) (options : Options) (timeout : Nat) :
    Told none (State.new layer options timeout) := by
  have hbare : Told none (State.bare options timeout) := by
    have hconnecting : ConnectionState.disconnected ≠ .connecting := by decide
    have hopened : ConnectionState.disconnected ≠ .opened := by decide
    refine ⟨fun g _ => rfl, fun h => absurd h hconnecting, fun h => absurd h hopened,
      fun g _ _ => .inl ⟨rfl, List.not_mem_nil, rfl, Nat.zero_le _⟩, ?_, fun h => absurd h hopened⟩
    intro g c hc
    cases hc
  have hengine : Told none (State.bare options timeout).attachEngine :=
    hbare.of_eq rfl rfl rfl (connections_self rfl) fun g => rfl
  cases layer with
  | transport => exact hbare
  | engine => exact hengine
  | session => exact hengine.of_eq rfl rfl rfl (connections_self rfl) fun g => rfl

/-- Where a connection stands between moves: it is open and lives, or it has not opened or is over. -/
theorem Told.standing {s : State} (hs : Told none s) (g : Nat) :
    (g = s.transport.generation ∧ s.transport.state = .opened) ∧ fate g s.journal = .live ∨
      ¬ (g = s.transport.generation ∧ s.transport.state = .opened) ∧
        (fate g s.journal = .unopened ∨ (fate g s.journal).isOver = true) := by
  by_cases h : g = s.transport.generation ∧ s.transport.state = .opened
  · obtain ⟨rfl, hopen⟩ := h
    obtain ⟨read, hc⟩ := hs.present hopen
    exact .inl ⟨⟨rfl, hopen⟩, congrArg Course.fate hc⟩
  · exact .inr ⟨h, hs.idle fun hg hopen => h ⟨hg, hopen⟩⟩

theorem Told.live_iff {g : Nat} {s : State} (hs : Told none s) :
    fate g s.journal = .live ↔ g = s.transport.generation ∧ s.transport.state = .opened := by
  rcases hs.standing g with ⟨hopen, hlive⟩ | ⟨hnot, h⟩
  · exact ⟨fun _ => hopen, fun _ => hlive⟩
  · refine ⟨fun hlive => ?_, fun hopen => absurd hopen hnot⟩
    rw [hlive] at h
    rcases h with h | h <;> cases h

/-- A connection that has opened has told of its opening, of the frames read from it and of its end. -/
theorem Told.events_eq {g : Nat} {s : State} (hs : Told none s) (h : fate g s.journal ≠ .unopened) :
    events g s.journal =
      .opened :: (frames g s.journal).map .message ++ (fate g s.journal).farewell := by
  have hover (h' : (course g s.journal).Over) : events g s.journal =
      .opened :: (frames g s.journal).map .message ++ (fate g s.journal).farewell := by
    rcases h' with h' | h'
    · exact absurd h'.1 h
    · exact h'.2
  rcases Nat.lt_trichotomy g s.transport.generation with hlt | rfl | hgt
  · exact hover (hs.past g (Nat.le_of_lt hlt) fun he => absurd he (Nat.ne_of_lt hlt))
  · cases hst : s.transport.state with
    | opened =>
      obtain ⟨read, hc⟩ := hs.present hst
      obtain ⟨he, hf, hl⟩ := Course.mk.inj hc
      rw [he, hf, hl]
    | connecting => exact absurd (congrArg Course.fate (hs.attempt hst)) h
    | disconnected => exact hover (hs.past _ (Nat.le_refl _) fun _ => hst)
  · exact absurd (congrArg Course.fate (hs.ahead g hgt)) h

/-- The connections that were made are those that have told of their opening. -/
def State.TellsOpenings (s : State) : Prop :=
  ∀ g, (s.connection? g).isSome = true ↔ Event.opened ∈ events g s.journal

theorem State.TellsOpenings.passage {a b : Juncture} (h : Passage a b) (hs : a.state.TellsOpenings) :
    b.state.TellsOpenings := by
  intro g
  have hbefore := hs g
  rw [opened_mem_events] at hbefore ⊢
  rcases h.openings with ⟨k, l, hb⟩ | ⟨hsame, more, hj, hmore⟩
  · have htransport : b.state.transport = (a.state.establish k l).transport := by rw [hb]; rfl
    have hjournal : b.state.journal = a.state.journal ++ [.emitted k .opened] := by
      obtain ⟨_, _, _, he⟩ := State.establish_eq k l a.state
      rw [hb, he]
      rfl
    rw [State.connection?, htransport, establish_transport, Keyed.get?_put, hjournal, List.mem_append,
      List.mem_singleton, ← hbefore, State.connection?]
    by_cases hk : k = g
    · simp [hk]
    · simp [hk, Ne.symm hk]
  · have hnone : Entry.emitted g .opened ∉ more := fun he => hmore _ he g rfl
    rw [hsame, hj, List.mem_append, hbefore, or_iff_left hnone]

theorem State.TellsOpenings.move (m : Move) (s : State) (hs : s.TellsOpenings) :
    (m.apply s).TellsOpenings :=
  (m.passages s).keeps (Q := fun j => j.state.TellsOpenings) (fun _ _ h => .passage h) hs

theorem tellsOpenings_new (layer : Layer) (options : Options) (timeout : Nat) :
    (State.new layer options timeout).TellsOpenings := by
  have hnone (g : Nat) : ((none : Option Connection).isSome = true) ↔ Event.opened ∈ events g [] := by
    simp [events]
  cases layer <;> exact hnone

private theorem eventful_anything : Eventful fun _ => True := ⟨fun _ _ => trivial, trivial⟩

/-- The journal tells at once what is read from a connection and what ends it, and nothing that does
not happen. -/
structure CandidAboutConnections (s : State) : Prop where
  connect : s.transport.state = .disconnected →
    (Move.apply .connect s).isAttempting (s.transport.generation + 1) = true
  found : ∀ g l, s.isAttempting g = true →
    Leads (.emitted g .opened) s (Move.apply (.found g l) s)
  disconnect : Leads .hungUp s s.disconnect
  read : ∀ g item, s.reading g = true → Leads (.received g item) s (Move.apply (.read g item) s)
  readEnd : ∀ g, s.reading g = true → Leads (.streamEnded g) s (Move.apply (.readEnd g) s)
  failWrite : ∀ g text frame frames, s.writing? g = some (frame :: frames) →
    Leads (.writeFailed g text) s (Move.apply (.failWrite g text) s)
  /-- No move tells anything else of connections. -/
  move : ∀ m : Move, Grows (fun e => e.isOfConnection = true → Reports m e) s (m.apply s)

theorem candid (s : State) : CandidAboutConnections s where
  connect h := by simp [Move.apply, State.beginAttempt, h, State.isAttempting, State.modifyTransport]
  found g l h := by
    obtain ⟨_, _, _, he⟩ := State.establish_eq g l s
    have hjournal : (s.establish g l).journal = s.journal := by rw [he]
    have hheard := emitWith_hears (P := fun _ => True) closes_disconnect g .opened
      (heeds_anything (s.establish g l))
    obtain ⟨more, hj⟩ := Leads.of_grows (shifts_grow (Hears.shifts eventful_anything hheard))
    simp only [Move.apply, State.completeAttempt, h, if_true]
    exact ⟨more, by rw [← hjournal]; exact hj⟩
  disconnect := .of_grows (shifts_grow (shifts_shut eventful_anything none .byClient
    (.refl (s.record .hungUp)) (heeds_anything _)))
  read g item hr := by
    have ht := heeds_anything (s.record (.received g item))
    simp only [Move.apply, State.readItem, hr, if_true]
    cases item with
    | ok frame =>
      exact .of_grows (shifts_grow (shifts_emit eventful_anything closes_disconnect g _ (.refl _) ht))
    | error e =>
      have hfail := shifts_failConnection eventful_anything g e.message (.refl _) ht
      exact .of_grows (shifts_grow (hfail.trans (chores_endReader g _).shifts))
  readEnd g hr := by
    have hshut := shifts_shut eventful_anything (some g) .byPeer (.refl (s.record (.streamEnded g)))
      (heeds_anything _)
    simp only [Move.apply, hr, if_true]
    exact .of_grows (shifts_grow (hshut.trans (chores_endReader g _).shifts))
  failWrite g text frame frames hw := by
    have hfail := shifts_failConnection eventful_anything g text
      (.refl ((s.unqueue g).record (.writeFailed g text))) (heeds_anything _)
    simp only [Move.apply, State.failWrite, hw]
    exact Leads.of_grows (s := s.unqueue g)
      (shifts_grow (hfail.trans (chores_endWriter g _).shifts))
  move m := m.grows s

/-- What every run tells of every connection, whatever the peer and the handlers do. Exactly the
connections that were made have told of their opening. Such a connection has told of every frame read from
it, in order, and of its end, unless it is the open one, which has not ended. While there is a connection or
an attempt at one, connecting changes nothing at all. And the journal is candid, so that an attempt whose
link is found tells of its opening first, and what is said to have ended a connection did. -/
theorem events_eq_course (layer : Layer) (options : Options) (timeout : Nat) (moves : List Move)
    (g : Nat) :
    let s := (State.new layer options timeout).after moves
    ((s.connection? g).isSome = true ↔ Event.opened ∈ events g s.journal) ∧
    (fate g s.journal = .live ↔ g = s.transport.generation ∧ s.transport.state = .opened) ∧
    (Event.opened ∈ events g s.journal →
      events g s.journal =
        .opened :: (frames g s.journal).map .message ++ (fate g s.journal).farewell ∧
      (fate g s.journal = .live ∨ (fate g s.journal).isOver = true)) ∧
    (s.transport.state = .disconnected ∨ s.turnAttempt .fresh = (.done (.ok ()), s)) ∧
    CandidAboutConnections s := by
  intro s
  have hs : Told none s := State.after_keeps Told.move (told_new layer options timeout) moves
  have htells : s.TellsOpenings :=
    State.after_keeps State.TellsOpenings.move (tellsOpenings_new layer options timeout) moves
  refine ⟨htells g, hs.live_iff, fun hopened => ?_, ?_, candid s⟩
  · have hfate : fate g s.journal ≠ .unopened := fun h => fate_eq_unopened.mp h hopened
    refine ⟨hs.events_eq hfate, ?_⟩
    rcases hs.standing g with ⟨-, h⟩ | ⟨-, h | h⟩
    · exact .inl h
    · exact absurd h hfate
    · exact .inr h
  · by_cases hd : s.transport.state = .disconnected
    · exact .inl hd
    · have hbegin : s.beginAttempt = (none, s) := by
        rw [State.beginAttempt, if_neg (by simpa using hd)]
      exact .inr (by rw [State.turnAttempt, hbegin])

def hangUpOnFailure : List Move :=
  [.listen (.event .failed) (.user ⟨"closer", false, [.disconnect]⟩) "closer", .connect, .found 1 0,
    .read 1 (.error (.transport "stream broke"))]

/-- A failure is not always the reason that a connection gives for its end: a handler that hears of
the failure may close the connection first. -/
theorem failed_not_closed_byFailure :
    ¬ ∀ (layer : Layer) (options : Options) (timeout : Nat) (moves : List Move) (g : Nat),
      let journal := ((State.new layer options timeout).after moves).journal
      Event.opened ∈ events g journal →
        ((∃ text, Event.failed text ∈ events g journal) ↔
          Event.closed .byFailure ∈ events g journal) := by
  intro h
  have hevents : events 1 ((State.new .transport .standard 30000).after hangUpOnFailure).journal =
      [.opened, .failed "transport error: stream broke", .closed .byClient] := by rfl
  have hclosed := (h .transport .standard 30000 hangUpOnFailure 1 (by simp [hevents])).mp
    ⟨"transport error: stream broke", by simp [hevents]⟩
  simp [hevents] at hclosed

end LanguageClient.Client
