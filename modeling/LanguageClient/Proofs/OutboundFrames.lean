import LanguageClient.Proofs.Representation
import Mathlib.Data.List.Induction
/-!
Frames on their way out. A frame that is accepted for a connection, and every keepalive frame of it,
goes through the queue of that connection to its sink, in order, whatever ends the connection
meanwhile and whatever connections come after it. The sink is closed when all of them have been
handed over, and not before, unless it has refused one.
-/
namespace LanguageClient.Client
open Relation Transport Rpc Json Session

/-- All that a journal says about the frames of a connection. -/
structure Ledger where
  opened : Bool
  closed : Bool
  /-- The frames that have been accepted for the connection and its keepalive frames, in the order in
  which they were queued. -/
  queued : List String
  /-- The frames that the sink has taken. -/
  written : List String
  failed : Bool
  drained : Bool

namespace Ledger

def blank : Ledger := ⟨false, false, [], [], false, false⟩

def after (keepalive : String) (g : Nat) (e : Entry) (l : Ledger) : Ledger :=
  match e with
  | .emitted k .opened => if k = g then { l with opened := true } else l
  | .emitted k (.closed _) => if k = g then { l with closed := true } else l
  | .offered frame (some k) => if k = g then { l with queued := l.queued ++ [frame] } else l
  | .keptAlive k _ => if k = g then { l with queued := l.queued ++ [keepalive] } else l
  | .written k frame => if k = g then { l with written := l.written ++ [frame] } else l
  | .writeFailed k _ => if k = g then { l with failed := true } else l
  | .sinkClosed k => if k = g then { l with drained := true } else l
  | _ => l

/-- What may come after all that a ledger tells. -/
def Allows (g : Nat) (l : Ledger) : Entry → Prop
  | .emitted k .opened => k = g → l = blank
  | .offered _ (some k) => k = g → l.opened = true ∧ l.closed = false ∧ l.drained = false
  | .keptAlive k _ => k = g → l.opened = true ∧ l.drained = false
  | .written k frame =>
    k = g → l.written ++ [frame] <+: l.queued ∧ l.failed = false ∧ l.drained = false
  | .writeFailed k _ =>
    k = g → (∃ frame, l.written ++ [frame] <+: l.queued) ∧ l.failed = false ∧ l.drained = false
  | .sinkClosed k =>
    k = g → l.written = l.queued ∧ l.closed = true ∧ l.failed = false ∧ l.drained = false
  | _ => True

end Ledger

def ledger (keepalive : String) (g : Nat) (journal : List Entry) : Ledger :=
  journal.foldl (fun l e => l.after keepalive g e) .blank

variable {keepalive : String} {g : Nat} {journal : List Entry} {l : Ledger}

@[simp] theorem ledger_concat (keepalive : String) (g : Nat) (journal : List Entry) (e : Entry) :
    ledger keepalive g (journal ++ [e]) = (ledger keepalive g journal).after keepalive g e := by
  rw [ledger, List.foldl_append]
  rfl

/-- What one more entry makes of a ledger. -/
inductive Ledger.Entered (keepalive : String) (g : Nat) (l : Ledger) : Entry → Ledger → Prop where
  | opened : Entered keepalive g l (.emitted g .opened) { l with opened := true }
  | closed (reason : CloseReason) :
    Entered keepalive g l (.emitted g (.closed reason)) { l with closed := true }
  | accepted (frame : String) :
    Entered keepalive g l (.offered frame (some g)) { l with queued := l.queued ++ [frame] }
  | keptAlive (due : Nat) :
    Entered keepalive g l (.keptAlive g due) { l with queued := l.queued ++ [keepalive] }
  | written (frame : String) :
    Entered keepalive g l (.written g frame) { l with written := l.written ++ [frame] }
  | failed (text : String) : Entered keepalive g l (.writeFailed g text) { l with failed := true }
  | drained : Entered keepalive g l (.sinkClosed g) { l with drained := true }
  | other {e : Entry} (h : e ≠ .sinkClosed g) : Entered keepalive g l e l

theorem Ledger.entered (keepalive : String) (g : Nat) (l : Ledger) (e : Entry) :
    Entered keepalive g l e (l.after keepalive g e) := by
  unfold Ledger.after
  split
  · split
    · rename_i hk
      exact hk ▸ .opened
    · exact .other nofun
  · split
    · rename_i hk
      exact hk ▸ .closed _
    · exact .other nofun
  · split
    · rename_i hk
      exact hk ▸ .accepted _
    · exact .other nofun
  · split
    · rename_i hk
      exact hk ▸ .keptAlive _
    · exact .other nofun
  · split
    · rename_i hk
      exact hk ▸ .written _
    · exact .other nofun
  · split
    · rename_i hk
      exact hk ▸ .failed _
    · exact .other nofun
  · split
    · rename_i hk
      exact hk ▸ .drained
    · rename_i hk
      exact .other fun he => hk (Entry.sinkClosed.inj he)
  · rename_i hno
    exact .other fun he => hno g he

/-- Everything in a journal may come after what stands before it. -/
def Regular (keepalive : String) (g : Nat) (journal : List Entry) : Prop :=
  ∀ before e, before ++ [e] <+: journal → (ledger keepalive g before).Allows g e

theorem Regular.prefix_of {before : List Entry} (h : Regular keepalive g journal)
    (hb : before <+: journal) : Regular keepalive g before :=
  fun earlier e he => h earlier e (he.trans hb)

theorem Regular.concat {e : Entry} (h : Regular keepalive g journal)
    (he : (ledger keepalive g journal).Allows g e) : Regular keepalive g (journal ++ [e]) := by
  intro before d hd
  rcases List.prefix_concat_iff.mp hd with hd | hd
  · obtain ⟨hbefore, hlast⟩ := List.append_inj' hd rfl
    obtain rfl := (List.cons.inj hlast).1
    rw [hbefore]
    exact he
  · exact h before d hd

/-- At no time has more been written than was queued, nor anything else, nor in another order. -/
theorem Regular.order (h : Regular keepalive g journal) :
    (ledger keepalive g journal).written <+: (ledger keepalive g journal).queued := by
  induction journal using List.reverseRecOn with
  | nil => exact List.prefix_rfl
  | append_singleton journal e ih =>
    have hj := ih (h.prefix_of (List.prefix_append _ _))
    have he := h journal e List.prefix_rfl
    have hstep := (ledger keepalive g journal).entered keepalive g e
    rw [ledger_concat]
    generalize (ledger keepalive g journal).after keepalive g e = l at hstep
    cases hstep with
    | opened => exact hj
    | closed reason => exact hj
    | accepted frame => exact hj.trans (List.prefix_append _ _)
    | keptAlive due => exact hj.trans (List.prefix_append _ _)
    | written frame => exact (he rfl).1
    | failed text => exact hj
    | drained => exact hj
    | other _ => exact hj

/-- When the sink has been closed, all that was queued has been written, and nothing is added to that. -/
structure Ledger.Complete (l : Ledger) : Prop where
  written : l.written = l.queued
  closed : l.closed = true
  failed : l.failed = false
  drained : l.drained = true

theorem Ledger.Complete.after (h : l.Complete) (keepalive : String) {e : Entry}
    (he : l.Allows g e) :
    (l.after keepalive g e).Complete ∧ (l.after keepalive g e).queued = l.queued := by
  have hclosed : l.closed ≠ false := by rw [h.closed]; decide
  have hdrained : l.drained ≠ false := by rw [h.drained]; decide
  have hstep := l.entered keepalive g e
  generalize l.after keepalive g e = next at hstep ⊢
  cases hstep with
  | opened =>
    obtain rfl := he rfl
    exact absurd rfl hdrained
  | closed reason => exact ⟨⟨h.written, rfl, h.failed, h.drained⟩, rfl⟩
  | accepted frame => exact absurd (he rfl).2.1 hclosed
  | keptAlive due => exact absurd (he rfl).2 hdrained
  | written frame => exact absurd (he rfl).2.2 hdrained
  | failed text => exact absurd (he rfl).2.2 hdrained
  | drained => exact absurd (he rfl).2.2.2 hdrained
  | other _ => exact ⟨h, rfl⟩

theorem Regular.complete {before after : List Entry} (h : Regular keepalive g (before ++ after))
    (hb : (ledger keepalive g before).Complete) : (ledger keepalive g (before ++ after)).Complete ∧
      (ledger keepalive g (before ++ after)).queued = (ledger keepalive g before).queued := by
  induction after using List.reverseRecOn with
  | nil =>
    rw [List.append_nil]
    exact ⟨hb, rfl⟩
  | append_singleton after e ih =>
    rw [← List.append_assoc] at h ⊢
    obtain ⟨hcomplete, hqueued⟩ := ih (h.prefix_of (List.prefix_append _ _))
    obtain ⟨hnext, hsame⟩ := hcomplete.after keepalive (h _ e List.prefix_rfl)
    rw [ledger_concat]
    exact ⟨hnext, hsame.trans hqueued⟩

/-- The sink is closed when everything has been written and the connection has been closed, and after
that nothing more is queued, written or refused. -/
theorem Regular.drained {before : List Entry} (h : Regular keepalive g journal)
    (hb : before ++ [.sinkClosed g] <+: journal) :
    (ledger keepalive g before).closed = true ∧ (ledger keepalive g before).failed = false ∧
      (ledger keepalive g before).written = (ledger keepalive g journal).queued ∧
      (ledger keepalive g journal).Complete := by
  obtain ⟨hwritten, hclosed, hfailed, _⟩ := h before _ hb rfl
  obtain ⟨after, rfl⟩ := hb
  have hafter : (ledger keepalive g before).after keepalive g (.sinkClosed g) =
      { ledger keepalive g before with drained := true } := if_pos rfl
  have hcomplete : (ledger keepalive g (before ++ [.sinkClosed g])).Complete := by
    rw [ledger_concat, hafter]
    exact ⟨hwritten, hclosed, hfailed, rfl⟩
  obtain ⟨hlast, hqueued⟩ := h.complete hcomplete
  refine ⟨hclosed, hfailed, ?_, hlast⟩
  rw [hqueued, ledger_concat, hafter, hwritten]

theorem drained_iff : (ledger keepalive g journal).drained = true ↔ .sinkClosed g ∈ journal := by
  induction journal using List.reverseRecOn with
  | nil => exact iff_of_false Bool.false_ne_true List.not_mem_nil
  | append_singleton journal e ih =>
    have hstep := (ledger keepalive g journal).entered keepalive g e
    rw [ledger_concat, List.mem_append, List.mem_singleton, ← ih]
    generalize (ledger keepalive g journal).after keepalive g e = l at hstep
    cases hstep with
    | drained => exact iff_of_true rfl (.inr rfl)
    | other h => exact (or_iff_left (Ne.symm h)).symm
    | _ => exact (or_iff_left nofun).symm

/-- How a connection stands with its frames, given what has been told of them, whether its writer is just
losing one, and whether frames are accepted for it. -/
inductive Stage (l : Ledger) (losing accepting : Prop) : Option Connection → Prop where
  /-- There is no connection yet; an attempt at it may have been called off. -/
  | unborn (blank : l = { Ledger.blank with closed := l.closed }) (hl : ¬ losing)
    (ha : ¬ accepting) : Stage l losing accepting none
  | serving {c : Connection} (hl : ¬ losing) (ha : accepting ↔ l.closed = false)
    (opened : l.opened = true) (writing : c.writing = true) (queue : l.queued = l.written ++ c.queue)
    (failed : l.failed = false) (drained : l.drained = false) : Stage l losing accepting (some c)
  | losing {c : Connection} (frame : String) (hl : losing) (ha : accepting ↔ l.closed = false)
    (opened : l.opened = true) (writing : c.writing = true)
    (queue : l.queued = l.written ++ frame :: c.queue) (failed : l.failed = true)
    (drained : l.drained = false) : Stage l losing accepting (some c)
  | lost {c : Connection} (frame : String) (hl : ¬ losing) (ha : ¬ accepting)
    (opened : l.opened = true) (closed : l.closed = true) (writing : c.writing = false)
    (queue : l.written ++ [frame] <+: l.queued) (failed : l.failed = true)
    (drained : l.drained = false) : Stage l losing accepting (some c)
  | drained {c : Connection} (hl : ¬ losing) (ha : ¬ accepting) (opened : l.opened = true)
    (writing : c.writing = false) (complete : l.Complete) (ticker : c.ticker = .ended) :
    Stage l losing accepting (some c)

variable {losing accepting : Prop} {c : Connection} {frame : String} {rest : List String}

theorem Stage.slow {o : Option Connection} (h : Stage l losing accepting o)
    {f : Connection → Connection} (hf : Slows f) : Stage l losing accepting (o.map f) := by
  cases h with
  | unborn blank hl ha => exact .unborn blank hl ha
  | @serving c hl ha opened writing queue failed drained =>
    exact .serving hl ha opened ((hf.writing c).trans writing) (by rw [hf.queue]; exact queue) failed
      drained
  | @losing c frame hl ha opened writing queue failed drained =>
    exact .losing frame hl ha opened ((hf.writing c).trans writing) (by rw [hf.queue]; exact queue) failed
      drained
  | @lost c frame hl ha opened closed writing queue failed drained =>
    exact .lost frame hl ha opened closed ((hf.writing c).trans writing) queue failed drained
  | @drained c hl ha opened writing complete ticker =>
    exact .drained hl ha opened ((hf.writing c).trans writing) complete (hf.ticker c ticker)

theorem Stage.enqueue (h : Stage l losing accepting (some c)) (frame : String)
    (hq : accepting ∨ c.ticker ≠ .ended) :
    Stage { l with queued := l.queued ++ [frame] } losing accepting
      (some { c with queue := c.queue ++ [frame] }) := by
  cases h with
  | serving hl ha opened writing queue failed drained =>
    exact .serving hl ha opened writing (by rw [queue, List.append_assoc]) failed drained
  | losing lost hl ha opened writing queue failed drained =>
    refine .losing lost hl ha opened writing ?_ failed drained
    rw [queue, List.append_assoc, List.cons_append]
  | lost lost hl ha opened closed writing queue failed drained =>
    exact .lost lost hl ha opened closed writing (queue.trans (List.prefix_append _ _)) failed drained
  | drained hl ha opened writing complete ticker =>
    exact absurd hq (not_or.mpr ⟨ha, not_not_intro ticker⟩)

theorem Stage.close {o : Option Connection} (h : Stage l losing accepting o) {accepting' : Prop}
    (hno : ¬ accepting') : Stage { l with closed := true } losing accepting' o := by
  have hclosed : accepting' ↔ true = false := iff_of_false hno nofun
  cases h with
  | unborn blank hl _ =>
    refine .unborn ?_ hl hno
    rw [blank]
  | serving hl _ opened writing queue failed drained =>
    exact .serving hl hclosed opened writing queue failed drained
  | losing frame hl _ opened writing queue failed drained =>
    exact .losing frame hl hclosed opened writing queue failed drained
  | lost frame hl _ opened closed writing queue failed drained =>
    exact .lost frame hl hno opened rfl writing queue failed drained
  | drained hl _ opened writing complete ticker =>
    exact .drained hl hno opened writing ⟨complete.written, rfl, complete.failed, complete.drained⟩
      ticker

/-- While a connection writes and does not lose a frame, all that was queued has been written or is in
the queue. -/
theorem Stage.writing (h : Stage l losing accepting (some c)) (hl : ¬ losing)
    (hw : c.writing = true) : (accepting ↔ l.closed = false) ∧ l.opened = true ∧
      l.queued = l.written ++ c.queue ∧ l.failed = false ∧ l.drained = false := by
  cases h with
  | serving _ ha opened _ queue failed drained => exact ⟨ha, opened, queue, failed, drained⟩
  | losing _ hl' _ _ _ _ _ _ => exact absurd hl' hl
  | lost _ _ _ _ _ writing _ _ _ =>
    rw [hw] at writing
    cases writing
  | drained _ _ _ writing _ _ =>
    rw [hw] at writing
    cases writing

theorem Stage.write (h : Stage l losing accepting (some c)) (hl : ¬ losing)
    (hw : c.writing = true) (hq : c.queue = frame :: rest) :
    Stage { l with written := l.written ++ [frame] } losing accepting
      (some { c with queue := c.queue.tail }) := by
  obtain ⟨ha, opened, queue, failed, drained⟩ := h.writing hl hw
  refine .serving hl ha opened hw ?_ failed drained
  rw [queue, hq, List.append_assoc]
  rfl

theorem Stage.lose (h : Stage l losing accepting (some c)) (hl : ¬ losing) (hw : c.writing = true)
    (hq : c.queue = frame :: rest) {losing' : Prop} (hl' : losing') :
    Stage { l with failed := true } losing' accepting (some { c with queue := c.queue.tail }) := by
  obtain ⟨ha, opened, queue, failed, drained⟩ := h.writing hl hw
  refine .losing frame hl' ha opened hw ?_ rfl drained
  rw [queue, hq]
  rfl

theorem Stage.letGo (h : Stage l losing accepting (some c)) (hl : losing) (ha : ¬ accepting)
    {losing' : Prop} (hl' : ¬ losing') :
    Stage l losing' accepting (some { c with writing := false, queue := [] }) := by
  cases h with
  | serving hl'' _ _ _ _ _ _ => exact absurd hl hl''
  | losing frame _ hclosed opened _ queue failed drained =>
    refine .lost frame hl' ha opened ?_ rfl ?_ failed drained
    · exact eq_true_of_ne_false fun hc => ha (hclosed.mpr hc)
    · exact ⟨c.queue, by rw [queue, List.append_assoc]; rfl⟩
  | lost _ hl'' _ _ _ _ _ _ _ => exact absurd hl hl''
  | drained hl'' _ _ _ _ _ => exact absurd hl hl''

/-- The writer has nothing to write any more and closes the sink. -/
theorem Stage.drain (h : Stage l losing accepting (some c)) (hl : ¬ losing) (ha : ¬ accepting)
    (hw : c.writing = true) (hq : c.queue = []) (ht : c.ticker = .ended) :
    Stage { l with drained := true } losing accepting
      (some { c with writing := false, queue := [] }) := by
  obtain ⟨hclosed, opened, queue, failed, _⟩ := h.writing hl hw
  rw [hq, List.append_nil] at queue
  have closed : l.closed = true := eq_true_of_ne_false fun hc => ha (hclosed.mpr hc)
  exact .drained hl ha opened rfl ⟨queue.symm, closed, failed, rfl⟩ ht

/-- An entry that says nothing about the frames of a connection. -/
def Entry.Spares (keepalive : String) (g : Nat) (e : Entry) : Prop :=
  ∀ l : Ledger, l.after keepalive g e = l ∧ l.Allows g e

theorem Entry.spares_of_isAside {e : Entry} (h : e.isAside = true) (keepalive : String) (g : Nat) :
    e.Spares keepalive g := by
  intro l
  cases e with
  | emitted k event => cases event <;> first | exact ⟨rfl, trivial⟩ | cases h
  | _ => first | exact ⟨rfl, trivial⟩ | cases h

theorem Entry.spares_emitted {k : Nat} (h : k ≠ g) (event : Transport.Event) (keepalive : String) :
    (Entry.emitted k event).Spares keepalive g := by
  intro l
  cases event with
  | opened => exact ⟨if_neg h, fun hk => absurd hk h⟩
  | closed reason => exact ⟨if_neg h, trivial⟩
  | message frame => exact ⟨rfl, trivial⟩
  | failed text => exact ⟨rfl, trivial⟩

theorem ledger_spared {more : List Entry} (h : ∀ e ∈ more, e.Spares keepalive g) :
    ledger keepalive g (journal ++ more) = ledger keepalive g journal := by
  induction more generalizing journal with
  | nil => rw [List.append_nil]
  | cons e more ih =>
    rw [List.append_cons, ih fun d hd => h d (List.mem_cons_of_mem e hd), ledger_concat]
    exact (h e List.mem_cons_self _).1

theorem Regular.spared {more : List Entry} (hj : Regular keepalive g journal)
    (h : ∀ e ∈ more, e.Spares keepalive g) : Regular keepalive g (journal ++ more) := by
  induction more generalizing journal with
  | nil =>
    rw [List.append_nil]
    exact hj
  | cons e more ih =>
    rw [List.append_cons]
    exact ih (hj.concat (h e List.mem_cons_self _).2) fun d hd => h d (List.mem_cons_of_mem e hd)

/-- Every connection stands with its frames as has been told of them. -/
structure Carried (keepalive : String) (p : Option Nat) (s : State) : Prop where
  fit : Fit s
  options : s.transport.options.keepaliveFrame = keepalive
  /-- Nothing has been told of a connection that is still to come. -/
  ahead : ∀ g, s.transport.generation < g ∨ s.isAttempting g = true →
    s.connection? g = none ∧ (ledger keepalive g s.journal).closed = false
  stage : ∀ g, Stage (ledger keepalive g s.journal) (p = some g) (s.transport.outbound = some g)
    (s.connection? g)
  regular : ∀ g, Regular keepalive g s.journal

variable {s t : State} {p q : Option Nat}

private theorem Carried.spare (hs : Carried keepalive p s) {hub : Registry EventKind Handler}
    (transport : t.transport = { s.transport with hub }) {more : List Entry}
    (journal : t.journal = s.journal ++ more) (hm : ∀ e ∈ more, ∀ g, e.Spares keepalive g) :
    Carried keepalive p t := by
  have hledger (g : Nat) : ledger keepalive g t.journal = ledger keepalive g s.journal := by
    rw [journal, ledger_spared fun e he => hm e he g]
  refine ⟨hs.fit.of_transport transport, ?_, fun g hg => ?_, fun g => ?_, fun g => ?_⟩
  · rw [transport]
    exact hs.options
  · rw [State.isAttempting, transport] at hg
    rw [State.connection?, transport, hledger]
    exact hs.ahead g hg
  · rw [State.connection?, transport, hledger]
    exact hs.stage g
  · rw [journal]
    exact (hs.regular g).spared fun e he => hm e he g

private theorem Carried.change (hs : Carried keepalive p s) (k : Nat) {more : List Entry} (fit : Fit t)
    (options : t.transport.options = s.transport.options) (journal : t.journal = s.journal ++ more)
    (spared : ∀ g, k ≠ g → ∀ e ∈ more, e.Spares keepalive g)
    (ahead : ∀ g, t.transport.generation < g ∨ t.isAttempting g = true →
      s.transport.generation < g ∨ s.isAttempting g = true)
    (losing : ∀ g, k ≠ g → (q = some g ↔ p = some g))
    (outbound : ∀ g, k ≠ g → (t.transport.outbound = some g ↔ s.transport.outbound = some g))
    (connection : ∀ g, k ≠ g → ∃ f, Slows f ∧ t.connection? g = (s.connection? g).map f)
    (own : t.transport.generation < k ∨ t.isAttempting k = true →
      t.connection? k = none ∧ (ledger keepalive k t.journal).closed = false)
    (stage : Stage (ledger keepalive k t.journal) (q = some k) (t.transport.outbound = some k)
      (t.connection? k))
    (regular : Regular keepalive k t.journal) : Carried keepalive q t := by
  have hledger (g : Nat) (hg : k ≠ g) :
      ledger keepalive g t.journal = ledger keepalive g s.journal := by
    rw [journal, ledger_spared (spared g hg)]
  refine ⟨fit, options ▸ hs.options, fun g hg => ?_, fun g => ?_, fun g => ?_⟩
  · by_cases hk : k = g
    · subst hk
      exact own hg
    · obtain ⟨hnone, hclosed⟩ := hs.ahead g (ahead g hg)
      obtain ⟨_, _, hc⟩ := connection g hk
      rw [hc, hnone, hledger g hk]
      exact ⟨rfl, hclosed⟩
  · by_cases hk : k = g
    · subst hk
      exact stage
    · obtain ⟨f, hf, hc⟩ := connection g hk
      rw [hc, hledger g hk, propext (losing g hk), propext (outbound g hk)]
      exact (hs.stage g).slow hf
  · by_cases hk : k = g
    · exact hk ▸ regular
    · rw [journal]
      exact (hs.regular g).spared (spared g hk)

private theorem Carried.touch (hs : Carried keepalive p s) (k : Nat) {f : Connection → Connection}
    {more : List Entry} (fit : Fit t)
    (transport : t.transport = (s.modifyConnection k f).transport)
    (journal : t.journal = s.journal ++ more)
    (spared : ∀ g, k ≠ g → ∀ e ∈ more, e.Spares keepalive g)
    (losing : ∀ g, k ≠ g → (q = some g ↔ p = some g))
    (closed : (ledger keepalive k t.journal).closed = (ledger keepalive k s.journal).closed)
    (stage : Stage (ledger keepalive k t.journal) (q = some k) (s.transport.outbound = some k)
      ((s.connection? k).map f))
    (regular : Regular keepalive k t.journal) : Carried keepalive q t := by
  have hconnection (g : Nat) : t.connection? g =
      if k = g then (s.connection? g).map f else s.connection? g := by
    rw [State.connection?, transport]
    exact connection?_modify k g f s
  have hahead (g : Nat) (hg : t.transport.generation < g ∨ t.isAttempting g = true) :
      s.transport.generation < g ∨ s.isAttempting g = true := by
    rw [State.isAttempting, transport] at hg
    exact hg
  have houtbound : t.transport.outbound = s.transport.outbound := by rw [transport]; rfl
  refine hs.change k fit (by rw [transport]; rfl) journal spared hahead losing
    (fun g _ => by rw [houtbound]) (fun g hg => ⟨id, slows_id, ?_⟩) (fun hk => ?_) ?_ regular
  · rw [hconnection, if_neg hg, Option.map_id, id]
  · obtain ⟨hnone, hopen⟩ := hs.ahead k (hahead k hk)
    rw [hconnection, if_pos rfl, hnone, closed]
    exact ⟨rfl, hopen⟩
  · rw [hconnection, if_pos rfl, houtbound]
    exact stage

private theorem Carried.told (hs : Carried keepalive p s) (k : Nat) {f : Connection → Connection}
    {e : Entry} (fit : Fit t) (transport : t.transport = (s.modifyConnection k f).transport)
    (journal : t.journal = s.journal ++ [e]) (spared : ∀ g, k ≠ g → e.Spares keepalive g)
    (losing : ∀ g, k ≠ g → (q = some g ↔ p = some g))
    (entered : (ledger keepalive k s.journal).after keepalive k e = l)
    (closed : l.closed = (ledger keepalive k s.journal).closed)
    (stage : Stage l (q = some k) (s.transport.outbound = some k) ((s.connection? k).map f))
    (allowed : (ledger keepalive k s.journal).Allows k e) : Carried keepalive q t := by
  have hledger : ledger keepalive k t.journal = l := by rw [journal, ledger_concat, entered]
  refine hs.touch k fit transport journal
    (fun g hg => List.forall_mem_singleton.mpr (spared g hg)) losing ?_ ?_ ?_
  · rw [hledger, closed]
  · rw [hledger]
    exact stage
  · rw [journal]
    exact (hs.regular k).concat allowed

theorem Stage.accepted (h : Stage l losing accepting (some c)) (ha : accepting) :
    l.opened = true ∧ l.closed = false ∧ l.drained = false := by
  cases h with
  | serving _ hc opened _ _ _ drained => exact ⟨opened, hc.mp ha, drained⟩
  | losing _ _ hc opened _ _ _ drained => exact ⟨opened, hc.mp ha, drained⟩
  | lost _ _ hno _ _ _ _ _ _ => exact absurd ha hno
  | drained _ hno _ _ _ _ => exact absurd ha hno

theorem Stage.ticking (h : Stage l losing accepting (some c)) (ht : c.ticker ≠ .ended) :
    l.opened = true ∧ l.drained = false := by
  cases h with
  | serving _ _ opened _ _ _ drained => exact ⟨opened, drained⟩
  | losing _ _ _ opened _ _ _ drained => exact ⟨opened, drained⟩
  | lost _ _ _ opened _ _ _ _ drained => exact ⟨opened, drained⟩
  | drained _ _ _ _ _ ticker => exact absurd ticker ht

private theorem Carried.send (hs : Carried keepalive p s) (frame : String) :
    Carried keepalive p (s.send frame).2 := by
  have hfit : Fit (s.send frame).2 := hs.fit.passage (.send p frame s)
  obtain ⟨k, _, hopen, ho, h⟩ | ⟨_, h⟩ := State.send_cases frame s
  · rw [h] at hfit ⊢
    have hcurrent : s.transport.generation = k := by
      rw [hs.fit.outbound, if_pos hopen] at ho
      exact Option.some.inj ho
    obtain ⟨c, hc, _⟩ := hs.fit.writer hopen
    rw [hcurrent] at hc
    have hstage := hs.stage k
    rw [hc] at hstage
    refine hs.told k (f := fun c => { c with queue := c.queue ++ [frame] }) hfit rfl rfl
      (fun g hg l => ⟨if_neg hg, fun he => absurd he hg⟩) (fun _ _ => Iff.rfl) (if_pos rfl) rfl ?_
      fun _ => hstage.accepted ho
    rw [hc]
    exact hstage.enqueue frame (.inl ho)
  · rw [h]
    have hjournal : (s.record (.offered frame none)).journal = s.journal ++ [.offered frame none] :=
      rfl
    exact hs.spare rfl hjournal (List.forall_mem_singleton.mpr fun _ _ => ⟨rfl, trivial⟩)

private theorem Carried.event (hs : Carried keepalive p s) {d : State} {event : Transport.Event}
    (fit : Fit (d.record (.emitted s.transport.generation event)))
    (options : d.transport.options = s.transport.options)
    (generation : d.transport.generation = s.transport.generation)
    (settled : d.transport.state ≠ .connecting) (journal : d.journal = s.journal)
    (outbound : ∀ g, d.transport.outbound = some g → s.transport.generation = g)
    (connection : ∀ g, s.transport.generation ≠ g →
      ∃ f, Slows f ∧ d.connection? g = (s.connection? g).map f)
    (stage : Stage ((ledger keepalive s.transport.generation s.journal).after keepalive
        s.transport.generation (.emitted s.transport.generation event))
      (p = some s.transport.generation) (d.transport.outbound = some s.transport.generation)
      (d.connection? s.transport.generation))
    (allowed : (ledger keepalive s.transport.generation s.journal).Allows s.transport.generation
      (.emitted s.transport.generation event)) :
    Carried keepalive p (d.record (.emitted s.transport.generation event)) := by
  have hconcat : (d.record (.emitted s.transport.generation event)).journal =
      s.journal ++ [.emitted s.transport.generation event] := by
    rw [State.record, journal]
  have hahead {g : Nat} (hg : d.transport.generation < g ∨ d.isAttempting g = true) :
      s.transport.generation < g := by
    obtain hg | hg := hg
    · exact generation ▸ hg
    · exact absurd (isAttempting_iff.mp hg).2 settled
  have hbefore (g : Nat) (ho : s.transport.outbound = some g) : s.transport.generation = g := by
    rw [hs.fit.outbound] at ho
    split at ho
    · exact Option.some.inj ho
    · cases ho
  refine hs.change s.transport.generation fit options hconcat
    (fun g hg => List.forall_mem_singleton.mpr (Entry.spares_emitted hg event keepalive))
    (fun g hg => .inl (hahead hg)) (fun _ _ => Iff.rfl)
    (fun g hg => iff_of_false (fun ho => hg (outbound g ho)) fun ho => hg (hbefore g ho)) connection
    (fun hg => absurd (hahead hg) (Nat.lt_irrefl _)) ?_ ?_
  · rw [hconcat, ledger_concat]
    exact stage
  · rw [hconcat]
    exact (hs.regular _).concat allowed

private theorem Carried.closed (hs : Carried keepalive p s) (reason : CloseReason)
    (h : s.transport.state ≠ .disconnected) : Carried keepalive p
      (s.takeDown.record (.emitted s.transport.generation (.closed reason))) := by
  have hfit := hs.fit.passage (.closed p reason h)
  have hconnection (g : Nat) := takeDown_connection g s
  obtain ⟨f, hf, hown⟩ := hconnection s.transport.generation
  obtain ⟨_, _, ht⟩ := State.takeDown_eq s
  have hnone (g : Nat) : s.takeDown.transport.outbound ≠ some g := by
    simp only [ht, ne_eq, reduceCtorEq, not_false_eq_true]
  have hentered : (ledger keepalive s.transport.generation s.journal).after keepalive
      s.transport.generation (.emitted s.transport.generation (.closed reason)) = _ := if_pos rfl
  refine hs.event hfit (by rw [ht]) (by rw [ht]) ?_ (by rw [ht]) (fun g ho => absurd ho (hnone g))
    (fun g _ => hconnection g) ?_ trivial
  · simp only [ht, ne_eq, reduceCtorEq, not_false_eq_true]
  · rw [hentered, hown]
    exact ((hs.stage s.transport.generation).slow hf).close (hnone _)

private theorem Carried.opened (hs : Carried keepalive none s) {k : Nat} (l : Nat)
    (h : s.isAttempting k = true) :
    Carried keepalive none ((s.establish k l).record (.emitted k .opened)) := by
  have hfit := hs.fit.passage (.opened k l h)
  obtain ⟨rfl, hst⟩ := isAttempting_iff.mp h
  obtain ⟨hnone, hopen⟩ := hs.ahead _ (.inr h)
  -- nothing has been told of the connection so far, not even that the attempt was called off
  have hblank : ledger keepalive s.transport.generation s.journal = .blank := by
    have hstage := hs.stage s.transport.generation
    rw [hnone] at hstage
    cases hstage with
    | unborn blank _ _ =>
      rw [blank, hopen]
      rfl
  have hentered : Ledger.blank.after keepalive s.transport.generation
      (.emitted s.transport.generation .opened) = _ := if_pos rfl
  have htransport := establish_transport s.transport.generation l s
  have hjournal : (s.establish s.transport.generation l).journal = s.journal := by
    obtain ⟨_, _, _, he⟩ := State.establish_eq s.transport.generation l s
    rw [he]
  have ho : (s.establish s.transport.generation l).transport.outbound =
      some s.transport.generation := by rw [htransport]
  refine hs.event hfit (by rw [htransport]) (by rw [htransport]) ?_ hjournal
    (fun g hg => Option.some.inj (ho.symm.trans hg)) (fun g hg => ⟨id, slows_id, ?_⟩) ?_
    fun _ => hblank
  · simp only [htransport, ne_eq, reduceCtorEq, not_false_eq_true]
  · rw [State.connection?, htransport, Option.map_id]
    exact (Keyed.get?_put _ _ _ _).trans (if_neg hg)
  · rw [hblank, hentered, ho, State.connection?, htransport, Keyed.get?_put_self]
    exact .serving (Option.some_ne_none _).symm (iff_of_true rfl rfl) rfl rfl rfl rfl rfl

private theorem Carried.written (hs : Carried keepalive none s) {k : Nat}
    (h : s.writing? k = some (frame :: rest)) :
    Carried keepalive none ((s.unqueue k).record (.written k frame)) := by
  obtain ⟨c, hc, hw, hq⟩ := writing?_eq_some.mp h
  have hstage := hs.stage k
  rw [hc] at hstage
  obtain ⟨_, _, queue, failed, drained⟩ := hstage.writing (Option.some_ne_none _).symm hw
  refine hs.told k (hs.fit.passage (.written k h)) rfl rfl
    (fun g hg l => ⟨if_neg hg, fun he => absurd he hg⟩) (fun _ _ => Iff.rfl) (if_pos rfl) rfl ?_
    fun _ => ⟨⟨rest, ?_⟩, failed, drained⟩
  · rw [hc]
    exact hstage.write (Option.some_ne_none _).symm hw hq
  · rw [queue, hq, List.append_assoc]
    rfl

private theorem Carried.lost (hs : Carried keepalive none s) {k : Nat} (text : String)
    (h : s.writing? k = some (frame :: rest)) :
    Carried keepalive (some k) ((s.unqueue k).record (.writeFailed k text)) := by
  obtain ⟨c, hc, hw, hq⟩ := writing?_eq_some.mp h
  have hstage := hs.stage k
  rw [hc] at hstage
  obtain ⟨_, _, queue, failed, drained⟩ := hstage.writing (Option.some_ne_none _).symm hw
  refine hs.told k (hs.fit.passage (.lost k text h)) rfl rfl
    (fun g hg l => ⟨if_neg hg, fun he => absurd he hg⟩)
    (fun g hg => iff_of_false (fun he => hg (Option.some.inj he)) (Option.some_ne_none _).symm) (if_pos rfl) rfl ?_
    fun _ => ⟨⟨frame, rest, ?_⟩, failed, drained⟩
  · rw [hc]
    exact hstage.lose (Option.some_ne_none _).symm hw hq rfl
  · rw [queue, hq, List.append_assoc]
    rfl

private theorem Carried.writerEnds {k : Nat} (hs : Carried keepalive (some k) s)
    (h : s.isCurrent k = false) : Carried keepalive none (s.endWriter k) := by
  have hno : s.transport.outbound ≠ some k := by
    intro ho
    rw [hs.fit.outbound] at ho
    split at ho
    · rename_i hopen
      rw [State.isCurrent, hopen, Option.some.inj ho] at h
      simp at h
    · cases ho
  have hjournal : (s.endWriter k).journal = s.journal := endWriter_journal k s
  have hnothing : (s.endWriter k).journal = s.journal ++ [] := by rw [hjournal, List.append_nil]
  refine hs.touch k (hs.fit.passage (.writerEnds k h)) (endWriter_transport k s) hnothing
    (fun _ _ => List.forall_mem_nil _)
    (fun g hg => iff_of_false (Option.some_ne_none _).symm fun he => hg (Option.some.inj he))
    (by rw [hjournal]) ?_ (by rw [hjournal]; exact hs.regular k)
  rw [hjournal]
  have hstage := hs.stage k
  cases hc : s.connection? k with
  | none =>
    rw [hc] at hstage
    cases hstage with
    | unborn _ hl _ => exact absurd rfl hl
  | some c =>
    rw [hc] at hstage
    exact hstage.letGo rfl hno (Option.some_ne_none _).symm

private theorem Carried.sinkClosed {k : Nat} (hs : Carried keepalive none s)
    (h : s.writing? k = some []) (hgone : s.sendersGone k = true) :
    Carried keepalive none (s.finishWriting k) := by
  obtain ⟨c, hc, hw, hq⟩ := writing?_eq_some.mp h
  have hstage := hs.stage k
  rw [hc] at hstage
  have hsenders : s.transport.outbound ≠ some k ∧ c.ticker = .ended := by
    simpa [State.sendersGone, hc] using hgone
  obtain ⟨hno, hticker⟩ := hsenders
  obtain ⟨hclosed, _, queue, failed, drained⟩ := hstage.writing (Option.some_ne_none _).symm hw
  have hjournal : (s.finishWriting k).journal = s.journal ++ [.sinkClosed k] := by
    rw [State.finishWriting, State.record, endWriter_journal]
  refine hs.told k (hs.fit.passage (.sinkClosed k h hgone)) (endWriter_transport k s) hjournal
    (fun g hg l => ⟨if_neg hg, fun he => absurd he hg⟩) (fun _ _ => Iff.rfl) (if_pos rfl) rfl ?_
    fun _ => ⟨?_, ?_, failed, drained⟩
  · rw [hc]
    exact hstage.drain (Option.some_ne_none _).symm hno hw hq hticker
  · rw [queue, hq, List.append_nil]
  · exact eq_true_of_ne_false fun he => hno (hclosed.mpr he)

private theorem Carried.ticked {k : Nat} (hs : Carried keepalive none s) (due : Nat)
    (hc : s.connection? k = some c) (h : c.ticker = .running) :
    Carried keepalive none ((s.modifyConnection k fun c =>
      { c with queue := c.queue ++ [s.transport.options.keepaliveFrame] }).record
        (.keptAlive k due)) := by
  have hticker : c.ticker ≠ .ended := by
    rw [h]
    decide
  have hstage := hs.stage k
  rw [hc] at hstage
  refine hs.told k (hs.fit.passage (.ticked k due hc h)) rfl rfl
    (fun g hg l => ⟨if_neg hg, fun he => absurd he hg⟩) (fun _ _ => Iff.rfl) (if_pos rfl) rfl ?_
    fun _ => hstage.ticking hticker
  rw [hc, hs.options]
  exact hstage.enqueue keepalive (.inr hticker)

private theorem Carried.tended (hs : Carried keepalive p s) (k : Nat) {f : Connection → Connection}
    (hfit : Fit (s.modifyConnection k f)) (hf : Slows f) :
    Carried keepalive p (s.modifyConnection k f) := by
  have hnothing : (s.modifyConnection k f).journal = s.journal ++ [] := (List.append_nil _).symm
  exact hs.touch k hfit rfl hnothing (fun _ _ => List.forall_mem_nil _) (fun _ _ => Iff.rfl) rfl
    ((hs.stage k).slow hf) (hs.regular k)

/-- Whatever happens to the transport, every connection stands with its frames as has been told. -/
theorem Carried.passage (h : Passage ⟨p, s⟩ ⟨q, t⟩) (hs : Carried keepalive p s) :
    Carried keepalive q t := by
  have hfit := hs.fit.passage h
  cases h with
  | aside _ h =>
    obtain ⟨_, ht⟩ := h.transport
    obtain ⟨_, hj, hm⟩ := h.journal
    exact hs.spare ht hj fun e he g => Entry.spares_of_isAside (hm e he) keepalive g
  | send _ frame _ => exact hs.send frame
  | closed _ reason h => exact hs.closed reason h
  | begun h =>
    refine ⟨hfit, hs.options, fun g hg => hs.ahead g (.inl ?_), hs.stage, hs.regular⟩
    simp only [State.isAttempting, State.modifyTransport, Bool.and_eq_true, beq_iff_eq] at hg
    omega
  | missed k h =>
    refine ⟨hfit, hs.options, fun g hg => hs.ahead g (.inl ?_), hs.stage, hs.regular⟩
    simpa [State.isAttempting, State.modifyTransport] using hg
  | opened k l h => exact hs.opened l h
  | tended _ k f _ h _ =>
    exact hs.tended k hfit ⟨fun c => (h c).1, fun c => (h c).2.1, fun c hc => (h c).2.2.trans hc⟩
  | written k h => exact hs.written h
  | lost k text h => exact hs.lost text h
  | writerEnds k h => exact hs.writerEnds h
  | sinkClosed k h hgone => exact hs.sinkClosed h hgone
  | ticked k due hc h => exact hs.ticked due hc h
  | tickerEnds k _ => exact hs.tended k hfit ⟨fun _ => rfl, fun _ => rfl, fun _ _ => rfl⟩

theorem Carried.move (m : Move) (s : State) (hs : Carried keepalive none s) :
    Carried keepalive none (m.apply s) :=
  (m.passages s).keeps (Q := fun a => Carried keepalive a.losing a.state)
    (fun _ _ h => Carried.passage h) hs

theorem carried_new (layer : Layer) (options : Options) (timeout : Nat) :
    Carried options.keepaliveFrame none (State.new layer options timeout) := by
  have hfit := fit_new layer options timeout
  have hregular (g : Nat) : Regular options.keepaliveFrame g [] := fun before e h =>
    absurd (List.prefix_nil.mp h) (List.append_ne_nil_of_right_ne_nil before (List.cons_ne_nil e []))
  cases layer <;>
    exact ⟨hfit, rfl, fun _ _ => ⟨rfl, rfl⟩, fun _ => .unborn rfl nofun nofun, hregular⟩

/-- The frames have been put on the link of a connection, in order and behind what was there, no other
link has been touched, and the sink has been closed if nobody can queue frames any more. -/
structure HandsOver (g l : Nat) (frames : List String) (s t : State) : Prop where
  journal : t.journal = s.journal ++ frames.map (.written g) ++
    if s.sendersGone g then [.sinkClosed g] else []
  link : (t.link? l).map Link.toPeer = (s.link? l).map fun k => k.toPeer ++ frames
  others : ∀ m, l ≠ m → t.link? m = s.link? m

theorem link?_modify (l m : Nat) (f : Link → Link) (s : State) :
    (s.modifyLink l f).link? m = if l = m then (s.link? m).map f else s.link? m :=
  Keyed.get?_modify _ _ _ _

theorem connection?_unqueue (g : Nat) (s : State) : (s.unqueue g).connection? g =
    (s.connection? g).map fun c => { c with queue := c.queue.tail } := by
  rw [State.unqueue, connection?_modify, if_pos rfl]

theorem sendersGone_unqueue (g : Nat) (s : State) : (s.unqueue g).sendersGone g = s.sendersGone g := by
  rw [State.sendersGone, State.sendersGone, connection?_unqueue]
  cases s.connection? g <;> rfl

theorem deliverFrame_of_reads {l : Nat} {k : Link} (hf : s.peer.writeFault = none)
    (hk : s.link? l = some k) (hr : k.peerReads = true) (frame : String) : s.deliverFrame l frame =
      .ok (s.modifyLink l fun k => { k with toPeer := k.toPeer ++ [frame] }) := by
  unfold State.deliverFrame
  rw [hf, hk]
  exact if_pos hr

private theorem finishWriting_handsOver {g : Nat} (hc : s.connection? g = some c)
    (hgone : s.sendersGone g = true) : HandsOver g c.link [] s (s.finishWriting g) := by
  have hlink (m : Nat) : (s.finishWriting g).link? m =
      if c.link = m then (s.link? m).map fun k => { k with clientWrites := false } else s.link? m := by
    rw [State.finishWriting, State.endWriter, hc]
    exact link?_modify _ _ _ _
  refine ⟨?_, ?_, fun m hm => ?_⟩
  · rw [hgone, if_pos rfl, State.finishWriting, State.record, endWriter_journal, List.map_nil,
      List.append_nil]
  · rw [hlink, if_pos rfl, Option.map_map]
    simp only [List.append_nil]
    rfl
  · rw [hlink, if_neg hm]

theorem HandsOver.cons {g l : Nat} {frame : String} {frames : List String} {s t u : State}
    (journal : t.journal = s.journal ++ [.written g frame])
    (gone : t.sendersGone g = s.sendersGone g)
    (link : ∀ m, t.link? m =
      if l = m then (s.link? m).map fun k => { k with toPeer := k.toPeer ++ [frame] } else s.link? m)
    (h : HandsOver g l frames t u) : HandsOver g l (frame :: frames) s u := by
  refine ⟨?_, ?_, fun m hm => ?_⟩
  · rw [h.journal, gone, journal, List.append_assoc s.journal, List.map_cons]
    rfl
  · rw [h.link, link, if_pos rfl, Option.map_map]
    simp only [Function.comp_def, List.append_assoc, List.singleton_append]
  · rw [h.others m hm, link, if_neg hm]

private theorem writeFrames_handsOver {g : Nat} {k : Link} (frames : List String)
    (hc : s.connection? g = some c) (hf : s.peer.writeFault = none) (hk : s.link? c.link = some k)
    (hr : k.peerReads = true) :
    HandsOver g c.link frames s (State.writeFrames g c.link frames s) := by
  induction frames generalizing s c k with
  | nil =>
    rw [State.writeFrames]
    split
    · rename_i hgone
      exact finishWriting_handsOver hc hgone
    · rename_i hgone
      refine ⟨?_, ?_, fun _ _ => rfl⟩
      · rw [if_neg hgone, List.map_nil, List.append_nil, List.append_nil]
      · simp only [List.append_nil]
  | cons frame frames ih =>
    have hunqueued : (s.unqueue g).connection? g = some { c with queue := c.queue.tail } := by
      rw [connection?_unqueue, hc, Option.map_some]
    have hdelivered := deliverFrame_of_reads (s := s.unqueue g) hf hk hr frame
    -- the client after the frame has been put on the link and that has been told
    generalize hu : ((s.unqueue g).modifyLink c.link fun k =>
      { k with toPeer := k.toPeer ++ [frame] }).record (.written g frame) = u
    have hnext : State.writeFrames g c.link (frame :: frames) s =
        State.writeFrames g c.link frames u := by
      rw [State.writeFrames]
      simp only [hdelivered, hu]
    have hlink (m : Nat) : u.link? m =
        if c.link = m then (s.link? m).map fun k => { k with toPeer := k.toPeer ++ [frame] }
        else s.link? m := by
      rw [← hu]
      exact link?_modify _ _ _ _
    have hrest : HandsOver g c.link frames u (State.writeFrames g c.link frames u) := by
      refine ih (c := { c with queue := c.queue.tail })
        (k := { k with toPeer := k.toPeer ++ [frame] }) ?_ ?_ ?_ hr
      · rw [← hu]
        exact hunqueued
      · rw [← hu]
        exact hf
      · rw [hlink, if_pos rfl, hk]
        rfl
    rw [hnext]
    refine .cons ?_ ?_ hlink hrest
    · rw [← hu]
      rfl
    · rw [← hu]
      exact sendersGone_unqueue g s

/-- As long as the peer takes what is written, a turn of the writer hands over all that is queued. -/
theorem runWriter_handsOver {g : Nat} {k : Link} (hc : s.connection? g = some c)
    (hw : c.writing = true) (hf : s.peer.writeFault = none) (hk : s.link? c.link = some k)
    (hr : k.peerReads = true) : HandsOver g c.link c.queue s (s.runWriter g) := by
  have hrun : s.runWriter g = State.writeFrames g c.link c.queue s := by
    rw [State.runWriter, hc]
    exact if_pos hw
  rw [hrun]
  exact writeFrames_handsOver c.queue hc hf hk hr

/-- The frames of a connection are neither lost, nor doubled, nor put in another order, nor mixed with
those of another connection. -/
structure Conveyed (keepalive : String) (g : Nat) (s : State) : Prop where
  /-- At any time, what the sink has taken is the beginning of what had been queued until then. -/
  order : ∀ before, before <+: s.journal →
    (ledger keepalive g before).written <+: (ledger keepalive g before).queued
  /-- A frame is accepted for the connection only while it is open. -/
  accepted : ∀ before frame, before ++ [.offered frame (some g)] <+: s.journal →
    (ledger keepalive g before).opened = true ∧ (ledger keepalive g before).closed = false
  /-- While the writer is there, what it has not written yet is in its queue. -/
  queue : ∀ frames, s.writing? g = some frames →
    (ledger keepalive g s.journal).queued = (ledger keepalive g s.journal).written ++ frames
  /-- The frame that the sink has refused was the next one. -/
  failed : (ledger keepalive g s.journal).failed = true → ∃ frame,
    (ledger keepalive g s.journal).written ++ [frame] <+: (ledger keepalive g s.journal).queued
  /-- The sink is closed after the connection has been closed and the sink has taken, without a refusal,
  all that is ever queued. -/
  drained : ∀ before, before ++ [.sinkClosed g] <+: s.journal →
    (ledger keepalive g before).closed = true ∧ (ledger keepalive g before).failed = false ∧
      (ledger keepalive g before).written = (ledger keepalive g s.journal).queued ∧
      (ledger keepalive g s.journal).Complete
  /-- When the writer is gone, and not because of a refusal, it has closed the sink. -/
  finished : ∀ c, s.connection? g = some c → c.writing = false →
    (ledger keepalive g s.journal).failed = false → .sinkClosed g ∈ s.journal

private theorem Stage.refused {o : Option Connection} (h : Stage l losing accepting o)
    (hf : l.failed = true) : ∃ frame, l.written ++ [frame] <+: l.queued := by
  have hne : l.failed ≠ false := by
    rw [hf]
    decide
  cases h with
  | unborn blank _ _ =>
    rw [blank] at hne
    exact absurd rfl hne
  | serving _ _ _ _ _ failed _ => exact absurd failed hne
  | @losing c frame _ _ _ _ queue _ _ =>
    refine ⟨frame, c.queue, ?_⟩
    rw [queue, List.append_assoc]
    rfl
  | lost frame _ _ _ _ _ queue _ _ => exact ⟨frame, queue⟩
  | drained _ _ _ _ complete _ => exact absurd complete.failed hne

private theorem Stage.finished (h : Stage l losing accepting (some c)) (hw : c.writing = false)
    (hf : l.failed = false) : l.drained = true := by
  cases h with
  | serving _ _ _ writing _ _ _ => exact absurd (writing.symm.trans hw) nofun
  | losing _ _ _ _ writing _ _ _ => exact absurd (writing.symm.trans hw) nofun
  | lost _ _ _ _ _ _ _ failed _ => exact absurd (failed.symm.trans hf) nofun
  | drained _ _ _ _ complete _ => exact complete.drained

theorem Carried.conveyed (hs : Carried keepalive none s) (g : Nat) : Conveyed keepalive g s where
  order before hb := ((hs.regular g).prefix_of hb).order
  accepted before frame hb := by
    obtain ⟨hopened, hclosed, _⟩ := hs.regular g before _ hb rfl
    exact ⟨hopened, hclosed⟩
  queue frames hq := by
    obtain ⟨c, hc, hw, rfl⟩ := writing?_eq_some.mp hq
    have hstage := hs.stage g
    rw [hc] at hstage
    obtain ⟨_, _, queue, _, _⟩ := hstage.writing (Option.some_ne_none _).symm hw
    exact queue
  failed hf := (hs.stage g).refused hf
  drained before hb := (hs.regular g).drained hb
  finished c hc hw hf := by
    have hstage := hs.stage g
    rw [hc] at hstage
    exact drained_iff.mp (hstage.finished hw hf)

/-- After every run, the sink of each connection has taken, in order, a beginning of the frames that were
accepted while that connection was open and of its keepalive frames, as they were queued, and no other
frame. If the writer has finished without a refusal it has handed over all of them and closed the sink
only then. And an open connection accepts a frame as its own, and a turn of a writer hands over all that
is queued as long as the peer takes it, whether the connection has ended or not. -/
theorem frames_conveyed (layer : Layer) (options : Options) (timeout : Nat) (moves : List Move) :
    let s := (State.new layer options timeout).after moves
    (∀ g, Conveyed options.keepaliveFrame g s) ∧
      (∀ frame, s.transport.state = .opened → (s.send frame).2.journal =
        s.journal ++ [.offered frame (some s.transport.generation)]) ∧
      ∀ g c k, s.connection? g = some c → c.writing = true → s.peer.writeFault = none →
        s.link? c.link = some k → k.peerReads = true →
          HandsOver g c.link c.queue s (s.runWriter g) := by
  intro s
  have hs : Carried options.keepaliveFrame none s :=
    State.after_keeps Carried.move (carried_new layer options timeout) moves
  refine ⟨hs.conveyed, fun frame hopen => ?_, fun g c k hc hw hf hk hr => ?_⟩
  · obtain ⟨_, _, hjournal⟩ | ⟨hclosed, _⟩ := hs.fit.send frame
    · exact hjournal
    · exact absurd hopen hclosed
  · exact runWriter_handsOver hc hw hf hk hr

/-- A frame is accepted just before the connection is ended, and another one for the next connection
before the writer of the first has had a turn. -/
def farewell : List Move :=
  [.connect, .found 1 0, .send "exit", .disconnect, .connect, .found 2 1, .send "hello", .write 1,
    .tick 1, .closeSink 1, .write 2]

theorem frames_conveyed_farewell :
    let s := (State.new .transport .standard 30000).after farewell
    Conveyed defaultKeepalive 1 s ∧ Conveyed defaultKeepalive 2 s ∧
      ledger defaultKeepalive 1 s.journal = ⟨true, true, ["exit"], ["exit"], false, true⟩ ∧
      ledger defaultKeepalive 2 s.journal = ⟨true, false, ["hello"], ["hello"], false, false⟩ := by
  obtain ⟨hconveyed, _⟩ := frames_conveyed .transport .standard 30000 farewell
  exact ⟨hconveyed 1, hconveyed 2, rfl, rfl⟩

end LanguageClient.Client
