import LanguageClient.Proofs.ConnectionEvents
import LanguageClient.Proofs.Utf8RoundTrip
import LanguageClient.Transport.WebSocket
/-!
From the items of a WebSocket to the events of a connection. Every text and every sequence of bytes that
is UTF-8 becomes one message, in order and unchanged; what carries no text is passed over. The first item
that is a failure ends the connection with that failure, and without one the end of the items does.
-/
namespace LanguageClient

namespace Transport.WebSocket
open Text

def Item.content? : Item → Option String
  | .text s => some s
  | .binary bytes => String.fromUTF8? bytes.toByteArray
  | _ => none

def Item.reason? : Item → Option String
  | .failure reason => some reason
  | _ => none

/-- The texts before the first failure. -/
def contents (items : List Item) : List String :=
  (items.takeWhile fun i => i.reason?.isNone).filterMap Item.content?

/-- The reason of the first failure. -/
def failure? (items : List Item) : Option String := items.findSome? Item.reason?

theorem fromUTF8?_eq_some {bytes : List UInt8} {s : String} :
    String.fromUTF8? bytes.toByteArray = some s ↔ bytes = Utf8.bytes s := by
  have hbytes : bytes = Utf8.bytes s ↔ bytes.toByteArray = s.toByteArray := by
    have hs : s.toByteArray = (Utf8.bytes s).toByteArray := by
      rw [Utf8.bytes, ← String.ofList_toList (s := s), String.toByteArray_ofList, String.toList_ofList]
      rfl
    rw [hs, List.toByteArray_inj]
  rw [hbytes, String.fromUTF8?]
  constructor
  · intro h
    split at h
    · cases h
      rfl
    · cases h
  · intro h
    have hvalid : bytes.toByteArray.IsValidUTF8 := h ▸ s.isValidUTF8
    rw [dif_pos hvalid, Option.some.injEq, ← String.toByteArray_inj]
    exact h

theorem inbound_fst (i : Item) : (inbound i).1 =
    match i.reason? with
    | some reason => some (.error (.transport reason))
    | none => i.content?.map .ok := by
  cases i with
  | binary bytes =>
    rw [inbound]
    cases h : Utf8.decode bytes with
    | ok cs =>
      have hbytes : bytes = Utf8.bytes (String.ofList cs) := by
        rw [Utf8.bytes, String.toList_ofList]
        exact Utf8.decode_eq_ok_iff.mp h
      rw [Item.content?, fromUTF8?_eq_some.mpr hbytes]
      rfl
    | error e =>
      have hnone : String.fromUTF8? bytes.toByteArray = none := by
        rw [Option.eq_none_iff_forall_ne_some]
        intro s hs
        rw [Utf8.decode_eq_ok_iff.mpr (fromUTF8?_eq_some.mp hs)] at h
        cases h
      rw [Item.content?, hnone]
      rfl
  | _ => rfl

variable {i : Item} {items : List Item}

theorem contents_cons (h : i.reason? = none) :
    contents (i :: items) = i.content?.toList ++ contents items := by
  rw [contents, List.takeWhile_cons_of_pos (by rw [h]; rfl), List.filterMap_cons]
  cases i.content? <;> rfl

theorem failure?_cons (h : i.reason? = none) : failure? (i :: items) = failure? items :=
  List.findSome?_cons_of_isNone (by rw [h]; rfl)

theorem contents_failure {reason : String} (h : i.reason? = some reason) :
    contents (i :: items) = [] ∧ failure? (i :: items) = some reason := by
  simp [contents, failure?, h]

theorem failure?_concat (items : List Item) (i : Item) :
    failure? (items ++ [i]) = (failure? items).or i.reason? := by
  rw [failure?, List.findSome?_append]
  cases h : i.reason? <;> simp [failure?, h]

theorem contents_concat (items : List Item) (i : Item) :
    contents (items ++ [i]) =
      contents items ++ if (failure? items).isNone then i.content?.toList else [] := by
  induction items with
  | nil => cases i <;> rfl
  | cons j items ih =>
    cases hj : j.reason? with
    | some reason =>
      obtain ⟨hc, hf⟩ : contents (j :: items) = [] ∧ failure? (j :: items) = some reason :=
        contents_failure hj
      rw [List.cons_append, (contents_failure hj).1, hc, hf]
      rfl
    | none =>
      rw [List.cons_append, contents_cons hj, contents_cons hj, failure?_cons hj, ih,
        List.append_assoc]

/-- What is read off a sequence of items as a whole. -/
theorem readAll_eq (items : List Item) : (readAll items).frames = contents items ∧
    (readAll items).fault = (failure? items).map .transport := by
  induction items with
  | nil => exact ⟨rfl, rfl⟩
  | cons i items ih =>
    have hi := inbound_fst i
    cases h : i.reason? with
    | some reason =>
      obtain ⟨hc, hf⟩ : contents (i :: items) = [] ∧ failure? (i :: items) = some reason :=
        contents_failure h
      rw [h] at hi
      have hin : inbound i = (some (.error (.transport reason)), (inbound i).2) := Prod.ext hi rfl
      rw [hc, hf, readAll, hin]
      exact ⟨rfl, rfl⟩
    | none =>
      rw [h] at hi
      have hin : inbound i = (i.content?.map .ok, (inbound i).2) := Prod.ext hi rfl
      rw [contents_cons h, failure?_cons h, ← ih.1, ← ih.2, readAll, hin]
      cases i.content? <;> exact ⟨rfl, rfl⟩

end Transport.WebSocket

namespace Client
open Relation Transport Rpc Json Session WebSocket

variable {g : Nat} {s t : State}

def State.ReadsOpen (s : State) : Prop :=
  s.transport.state = .opened → s.reading s.transport.generation = true

theorem reading_iff : s.reading g = true ↔
    ∃ c, s.connection? g = some c ∧ c.reader = .running := by
  rw [State.reading]
  cases s.connection? g with
  | none => simp
  | some c => simp

private theorem State.ReadsOpen.of_eq (hs : s.ReadsOpen)
    (generation : t.transport.generation = s.transport.generation)
    (state : t.transport.state = s.transport.state)
    (connections : t.transport.connections = s.transport.connections) : t.ReadsOpen := by
  intro hopen
  rw [state] at hopen
  rw [generation, State.reading, State.connection?, connections]
  exact hs hopen

private theorem State.ReadsOpen.modify (hs : s.ReadsOpen) {k : Nat} {f : Connection → Connection}
    (transport : t.transport = (s.modifyConnection k f).transport)
    (hf : s.isCurrent k = true → s.reading k = true → ∀ c, (f c).reader = c.reader) :
    t.ReadsOpen := by
  intro hopen
  rw [transport] at hopen
  have hreading := hs hopen
  obtain ⟨c, hc, hrunning⟩ := reading_iff.mp hreading
  have hget : t.connection? s.transport.generation =
      if k = s.transport.generation then (some c).map f else some c := by
    rw [State.connection?, transport, ← hc]
    exact connection?_modify k _ f s
  rw [transport]
  change t.reading s.transport.generation = true
  split at hget
  · rename_i hk
    subst hk
    have hcurrent : s.isCurrent s.transport.generation = true := by
      simp [State.isCurrent, show s.transport.state = .opened from hopen]
    exact reading_iff.mpr ⟨_, hget, (hf hcurrent hreading c).trans hrunning⟩
  · exact reading_iff.mpr ⟨c, hget, hrunning⟩

private theorem State.ReadsOpen.passage {a b : Juncture} (h : Passage a b) (hs : a.state.ReadsOpen) :
    b.state.ReadsOpen := by
  cases h with
  | aside p h =>
    obtain ⟨_, ht⟩ := h.transport
    exact hs.of_eq (by rw [ht]) (by rw [ht]) (by rw [ht])
  | send p frame s =>
    obtain ⟨k, _, _, _, h⟩ | ⟨_, h⟩ := State.send_cases frame s
    · exact hs.modify (k := k) (f := fun c => { c with queue := c.queue ++ [frame] }) (by rw [h])
        fun _ _ _ => rfl
    · exact hs.of_eq (by rw [h]; rfl) (by rw [h]; rfl) (by rw [h]; rfl)
  | @closed p reason s hup =>
    obtain ⟨_, _, ht⟩ := State.takeDown_eq s
    intro hopen
    rw [State.record, ht] at hopen
    cases hopen
  | begun h =>
    intro hopen
    cases hopen
  | missed g h =>
    intro hopen
    cases hopen
  | @opened k l s h =>
    intro _
    have htransport : ((s.establish k l).record (.emitted k .opened)).transport = _ :=
      establish_transport k l s
    obtain ⟨rfl, -⟩ := isAttempting_iff.mp h
    rw [reading_iff, State.connection?, htransport]
    exact ⟨_, Keyed.get?_put_self _ _ _, rfl⟩
  | tended p g f s hf hr => exact hs.modify rfl hr
  | written g h => exact hs.modify rfl fun _ _ _ => rfl
  | lost g text h => exact hs.modify rfl fun _ _ _ => rfl
  | @writerEnds g s h => exact hs.modify (endWriter_transport g s) fun _ _ _ => rfl
  | @sinkClosed g s h hgone => exact hs.modify (endWriter_transport g s) fun _ _ _ => rfl
  | ticked g due hc h => exact hs.modify rfl fun _ _ _ => rfl
  | tickerEnds g s => exact hs.modify rfl fun _ _ _ => rfl

theorem State.ReadsOpen.move (m : Move) (s : State) (hs : s.ReadsOpen) : (m.apply s).ReadsOpen :=
  (m.passages s).keeps (Q := fun j => j.state.ReadsOpen) (fun _ _ h => .passage h) hs

theorem readsOpen_new (layer : Layer) (options : Options) (timeout : Nat) :
    (State.new layer options timeout).ReadsOpen := by
  cases layer <;> exact nofun

/-- The client has left the connection itself, or one of its handlers has. -/
def Fate.isLeft : Fate → Bool
  | .left | .failedAndLeft _ => true
  | _ => false

/-- Entries that end a connection other than by the client leaving it. -/
def Entry.breaks (g : Nat) : Entry → Bool
  | .streamEnded h | .received h (.error _) | .writeFailed h _ => h == g
  | _ => false

theorem Fate.foldl_live {more : List Entry} (h : ∀ e ∈ more, e.breaks g = false) :
    let f := more.foldl (fun f e => f.after g e) Fate.live
    f = .live ∨ f = .left := by
  induction more with
  | nil => exact .inl rfl
  | cons e more ih =>
    have he := h e List.mem_cons_self
    have hstep : Fate.live.after g e = .live ∨ Fate.live.after g e = .left := by
      cases e with
      | hungUp => exact .inr rfl
      | streamEnded k => exact .inl (if_neg (by simpa [Entry.breaks] using he))
      | writeFailed k text => exact .inl (if_neg (by simpa [Entry.breaks] using he))
      | received k item =>
        cases item with
        | ok frame => exact .inl rfl
        | error cause => exact .inl (if_neg (by simpa [Entry.breaks] using he))
      | _ => exact .inl rfl
    rw [List.foldl_cons]
    rcases hstep with hstep | hstep
    · rw [hstep]
      exact ih fun d hd => h d (List.mem_cons_of_mem e hd)
    · rw [hstep]
      exact .inr (Fate.foldl_of_isOver rfl g more)

/-- A connection that fails has failed in the end, whether or not the client leaves it meanwhile. -/
theorem Fate.foldl_failing (text : String) (more : List Entry) :
    let f := more.foldl (fun f e => f.after g e) (Fate.failing text)
    f = .failing text ∨ f = .failed text ∨ f = .failedAndLeft text := by
  induction more with
  | nil => exact .inl rfl
  | cons e more ih =>
    have hstep : (Fate.failing text).after g e = .failing text ∨
        (Fate.failing text).after g e = .failed text ∨
          (Fate.failing text).after g e = .failedAndLeft text := by
      cases e with
      | hungUp => exact .inr (.inr rfl)
      | emitted k event =>
        cases event with
        | closed reason =>
          by_cases hk : k = g
          · exact .inr (.inl (if_pos hk))
          · exact .inl (if_neg hk)
        | _ => exact .inl rfl
      | _ => exact .inl rfl
    rw [List.foldl_cons]
    rcases hstep with hstep | hstep | hstep <;> rw [hstep]
    · exact ih
    · exact .inr (.inl (Fate.foldl_of_isOver rfl g more))
    · exact .inr (.inr (Fate.foldl_of_isOver rfl g more))

/-- What is told of a connection from a time on at which it is open. -/
theorem Told.events_since (hs : Told none s) (hlive : fate g s.journal = .live) (ht : Told none t)
    {read : List String} (hread : frames g t.journal = frames g s.journal ++ read)
    (hopened : fate g t.journal ≠ .unopened) : events g t.journal =
      events g s.journal ++ read.map .message ++ (fate g t.journal).farewell := by
  have hbefore : events g s.journal = .opened :: (frames g s.journal).map .message := by
    rw [hs.events_eq (by rw [hlive]; nofun), hlive]
    exact List.append_nil _
  rw [ht.events_eq hopened, hread, hbefore, List.map_append]
  simp only [List.cons_append]

theorem Fate.farewell_eq_cons {f : Fate} (h : f.isOver = true) :
    ∃ e rest, f.farewell = e :: rest ∧ ∀ frame, e ≠ .message frame := by
  cases f with
  | unopened => cases h
  | live => cases h
  | failing text => cases h
  | left => exact ⟨_, _, rfl, nofun⟩
  | finished => exact ⟨_, _, rfl, nofun⟩
  | failed text => exact ⟨_, _, rfl, nofun⟩
  | failedAndLeft text => exact ⟨_, _, rfl, nofun⟩

/-- A connection that is over tells nothing more. -/
theorem Told.events_of_isOver (hs : Told none s) (h : (fate g s.journal).isOver = true)
    (later : List Move) : events g (s.after later).journal = events g s.journal := by
  have ht : Told none (s.after later) := State.after_keeps Told.move hs later
  obtain ⟨more, hj, -⟩ := s.after_grows later
  have hfate : fate g (s.after later).journal = fate g s.journal := by
    rw [hj, fate_append, Fate.foldl_of_isOver h]
  have hopened : fate g s.journal ≠ .unopened := by
    intro hu
    rw [hu] at h
    cases h
  have hbefore := hs.events_eq hopened
  have hafter := ht.events_eq (hfate ▸ hopened)
  have happend : events g (s.after later).journal = events g s.journal ++ events g more := by
    rw [hj]
    exact List.filterMap_append
  have hframes : frames g (s.after later).journal = frames g s.journal ++ frames g more := by
    rw [hj]
    exact List.filterMap_append
  rw [happend, hframes, hfate, hbefore] at hafter
  rw [happend]
  simp only [List.map_append, List.cons_append, List.append_assoc, List.cons.injEq, true_and,
    List.append_cancel_left_eq] at hafter
  -- The farewell has been told already, so that no frame can have come before it.
  cases hread : frames g more with
  | nil =>
    rw [hread] at hafter
    rw [List.append_right_eq_self.mp hafter, List.append_nil]
  | cons frame read =>
    obtain ⟨e, rest, hfarewell, hmessage⟩ := Fate.farewell_eq_cons h
    rw [hread, hfarewell] at hafter
    exact absurd (List.cons.inj hafter).1 (hmessage frame)

/-- What an item brings about while the connection is read: a note in the log, or something that is read
from the connection. -/
def arrivalMoves (g : Nat) (i : Item) : List Move :=
  (inbound i).2.map (fun text => .note ⟨.warn, text⟩) ++ ((inbound i).1.map (.read g)).toList

/-- An item arrives for a connection. Only the open connection is read. -/
def State.receive (g : Nat) (i : Item) (s : State) : State :=
  if s.reading g then s.after (arrivalMoves g i) else s

/-- An item arrives, or something happens meanwhile. -/
inductive Arrival where
  | item (i : Item)
  | meanwhile (m : Move)

def Arrival.item? : Arrival → Option Item
  | item i => some i
  | meanwhile _ => none

def Arrival.apply (g : Nat) (s : State) : Arrival → State
  | item i => s.receive g i
  | meanwhile m => m.apply s

def itemsOf (arrivals : List Arrival) : List Item := arrivals.filterMap Arrival.item?

def State.afterArrivals (g : Nat) (s : State) (arrivals : List Arrival) : State :=
  arrivals.foldl (Arrival.apply g) s

/-- The moves that read from a connection or break it. -/
def Move.handles (g : Nat) : Move → Bool
  | .read h _ | .readEnd h | .failWrite h _ => h == g
  | _ => false

/-- The fate of a connection for which these items have arrived, if the client does not leave it. -/
def fateOf (items : List Item) : Fate :=
  (failure? items).elim .live fun reason => .failed (Fault.transport reason).message

/-- These items have been read from a connection after these frames, unless the client has left it. -/
def TakenIn (g : Nat) (read : List String) (items : List Item) (s : State) : Prop :=
  (fate g s.journal).isLeft = true ∨
    frames g s.journal = read ++ contents items ∧ fate g s.journal = fateOf items

/-- Entries that neither give a frame nor break the connection. -/
def Entry.Idles (g : Nat) (e : Entry) : Prop := frame? g e = none ∧ e.breaks g = false

theorem idles_of_not_isOfConnection {e : Entry} (h : e.isOfConnection = false) : e.Idles g := by
  cases e <;> first | exact ⟨rfl, rfl⟩ | cases h

theorem Reports.idles {m : Move} {e : Entry} (h : Reports m e) (hm : m.handles g = false) :
    e.Idles g := by
  cases h with
  | emitted _ k event => exact ⟨rfl, rfl⟩
  | hungUp _ => exact ⟨rfl, rfl⟩
  | received k item =>
    have hk : k ≠ g := by simpa [Move.handles] using hm
    cases item with
    | ok frame => exact ⟨if_neg hk, rfl⟩
    | error e => exact ⟨rfl, hm⟩
  | streamEnded k => exact ⟨rfl, hm⟩
  | writeFailed k text => exact ⟨rfl, hm⟩

theorem hears_idles {P : String → Prop} {R : Response → Prop} (h : Hears P R s t) :
    Grows (Entry.Idles g) s t := by
  refine h.keeps_of_steps (Q := Grows (Entry.Idles g) s) (fun t u h hs => ?_) (fun t hs => ?_) (.refl s)
  · exact hs.trans ((step_grows h).mono fun _ => idles_of_not_isOfConnection)
  · have hup : Grows (Entry.Idles g) s (t.record .hungUp) := hs.trans (grows_record ⟨rfl, rfl⟩ t)
    by_cases hdown : t.transport.state = .disconnected
    · rw [State.hangUp_of_down hdown]
      exact hup
    · obtain ⟨_, _, htaken⟩ := State.takeDown_eq (t.record .hungUp)
      rw [State.hangUp_of_up hdown, htaken]
      exact hup.trans (grows_record (s := t.record .hungUp) (C := Entry.Idles g) ⟨rfl, rfl⟩)

variable {read : List String} {items : List Item}

theorem frames_append (g : Nat) (journal more : List Entry) :
    frames g (journal ++ more) = frames g journal ++ frames g more := List.filterMap_append

theorem frames_of_idles {more : List Entry} (h : ∀ e ∈ more, e.Idles g) : frames g more = [] :=
  List.filterMap_eq_nil_iff.mpr fun e he => (h e he).1

theorem frames_of_reports {m : Move} {more : List Entry}
    (h : ∀ e ∈ more, e.isOfConnection = true → Reports m e)
    (hm : ∀ frame, m ≠ .read g (.ok frame)) : frames g more = [] := by
  refine List.filterMap_eq_nil_iff.mpr fun e he => ?_
  cases hc : e.isOfConnection with
  | false => exact (idles_of_not_isOfConnection hc).1
  | true =>
    cases h e he hc with
    | received k item =>
      cases item with
      | ok frame => exact if_neg fun hk => hm frame (by rw [hk])
      | error e => rfl
    | emitted _ k event => rfl
    | hungUp _ => rfl
    | streamEnded k => rfl
    | writeFailed k text => rfl

theorem TakenIn.of_isLeft {more : List Entry} (h : (fate g s.journal).isLeft = true)
    (hj : t.journal = s.journal ++ more) : TakenIn g read items t := by
  have hover : (fate g s.journal).isOver = true := by
    cases hf : fate g s.journal <;> rw [hf] at h <;> first | rfl | cases h
  refine .inl ?_
  rw [hj, fate_append, Fate.foldl_of_isOver hover]
  exact h

/-- What neither reads nor breaks a connection takes nothing in, and ends it only if the client leaves. -/
theorem TakenIn.grows (hs : TakenIn g read items s) (h : Grows (Entry.Idles g) s t) :
    TakenIn g read items t := by
  obtain ⟨more, hj, hmore⟩ := h
  rcases hs with hs | ⟨hread, hfate⟩
  · exact .of_isLeft hs hj
  have hframes : frames g t.journal = read ++ contents items := by
    rw [hj, frames_append, frames_of_idles hmore, List.append_nil, hread]
  have hlater : fate g t.journal = more.foldl (fun f e => f.after g e) (fateOf items) := by
    rw [hj, fate_append, hfate]
  cases hf : failure? items with
  | some reason =>
    refine .inr ⟨hframes, hlater.trans (Fate.foldl_of_isOver ?_ g more)⟩
    rw [fateOf, hf]
    rfl
  | none =>
    rw [fateOf, hf] at hlater
    rcases Fate.foldl_live fun e he => (hmore e he).2 with h | h
    · refine .inr ⟨hframes, hlater.trans (h.trans ?_)⟩
      rw [fateOf, hf]
      rfl
    · refine .inl ?_
      rw [hlater.trans h]
      rfl

theorem TakenIn.of_reading (hs : TakenIn g read items s) (htold : Told none s) (h : s.reading g = true) :
    frames g s.journal = read ++ contents items ∧ fate g s.journal = .live ∧ failure? items = none := by
  have hlive : fate g s.journal = .live := htold.live_iff.mpr (htold.reading h)
  rcases hs with hs | ⟨hread, hfate⟩
  · rw [hlive] at hs
    cases hs
  · refine ⟨hread, hlive, ?_⟩
    rw [hlive, fateOf] at hfate
    cases hf : failure? items with
    | none => rfl
    | some reason =>
      rw [hf] at hfate
      cases hfate

theorem TakenIn.readText (hs : TakenIn g read items s) (htold : Told none s) (h : s.reading g = true)
    {i : Item} {frame : String} (hreason : i.reason? = none) (hcontent : i.content? = some frame) :
    TakenIn g read (items ++ [i]) (Move.apply (.read g (.ok frame)) s) := by
  obtain ⟨hread, hlive, hnone⟩ := hs.of_reading htold h
  have htaken : TakenIn g read (items ++ [i])
      ((s.record (.received g (.ok frame))).record (.emitted g (.message frame))) := by
    refine .inr ⟨?_, ?_⟩
    · rw [contents_concat, hnone, hcontent, ← List.append_assoc, ← hread, State.record, State.record,
        List.append_assoc, frames_append]
      simp [frames, frame?]
    · rw [fateOf, failure?_concat, hnone, hreason, State.record, State.record, List.append_assoc,
        fate_append, hlive]
      rfl
  rw [Move.apply, State.readItem, if_pos h]
  exact htaken.grows (hears_idles (emitWith_hears (P := fun _ => True) closes_disconnect g _
    (heeds_anything _)))

theorem TakenIn.readFailure (hs : TakenIn g read items s) (htold : Told none s) (h : s.reading g = true)
    {i : Item} {reason : String} (hreason : i.reason? = some reason) :
    TakenIn g read (items ++ [i]) (Move.apply (.read g (.error (.transport reason))) s) := by
  obtain ⟨hread, hlive, hnone⟩ := hs.of_reading htold h
  obtain ⟨more, hj⟩ := (candid s).read g (.error (.transport reason)) h
  obtain ⟨added, hadded, hreports⟩ := Move.grows (.read g (.error (.transport reason))) s
  have hframes : frames g added = [] := frames_of_reports hreports fun frame h => by cases h
  have hcontents : frames g (Move.apply (.read g (.error (.transport reason))) s).journal =
      read ++ contents (items ++ [i]) := by
    have hcontent : i.content? = none := by cases i <;> first | rfl | cases hreason
    rw [hadded, frames_append, hframes, List.append_nil, hread, contents_concat, hcontent]
    simp
  have hfate : fate g (Move.apply (.read g (.error (.transport reason))) s).journal =
      more.foldl (fun f e => f.after g e) (.failing (Fault.transport reason).message) := by
    have hfailing : Fate.live.after g (.received g (.error (.transport reason))) =
        .failing (Fault.transport reason).message := if_pos rfl
    rw [hj, fate_append, hlive, List.foldl_cons, hfailing]
  rcases Fate.foldl_failing (Fault.transport reason).message more with hmore | hmore | hmore
  · rcases (Told.move _ s htold).standing g with ⟨-, h'⟩ | ⟨-, h' | h'⟩ <;>
      rw [hfate.trans hmore] at h' <;> cases h'
  · refine .inr ⟨hcontents, (hfate.trans hmore).trans ?_⟩
    rw [fateOf, failure?_concat, hnone, hreason]
    rfl
  · refine .inl ?_
    rw [hfate.trans hmore]
    rfl

theorem after_notes (texts : List String) (s : State) :
    Grows (Entry.Idles g) s (s.after (texts.map fun text => .note ⟨.warn, text⟩)) ∧
      (s.after (texts.map fun text => .note ⟨.warn, text⟩)).transport = s.transport := by
  induction texts generalizing s with
  | nil => exact ⟨.refl s, rfl⟩
  | cons text texts ih =>
    obtain ⟨hgrows, htransport⟩ := ih (s.record (.note ⟨.warn, text⟩))
    exact ⟨(grows_record (C := Entry.Idles g) ⟨rfl, rfl⟩ s).trans hgrows, htransport⟩

theorem TakenIn.concat (hs : TakenIn g read items s) {i : Item}
    (hcontents : contents (items ++ [i]) = contents items)
    (hfailure : failure? (items ++ [i]) = failure? items) : TakenIn g read (items ++ [i]) s := by
  rw [TakenIn, fateOf, hcontents, hfailure]
  exact hs

theorem TakenIn.receive (hs : TakenIn g read items s) (htold : Told none s) (hreads : s.ReadsOpen)
    (i : Item) : TakenIn g read (items ++ [i]) (s.receive g i) := by
  rw [State.receive]
  split
  · rename_i h
    rw [arrivalMoves, State.after_append]
    obtain ⟨hgrows, htransport⟩ := after_notes (g := g) (inbound i).2 s
    have htold' := State.after_keeps Told.move htold
      ((inbound i).2.map fun text => .note ⟨.warn, text⟩)
    generalize s.after ((inbound i).2.map fun text => .note ⟨.warn, text⟩) = t at *
    have ht : TakenIn g read items t := hs.grows hgrows
    have hreading : t.reading g = true := by
      rw [State.reading, State.connection?, htransport]
      exact h
    obtain ⟨-, -, hnone⟩ := ht.of_reading htold' hreading
    rw [inbound_fst]
    cases hreason : i.reason? with
    | some reason => exact ht.readFailure htold' hreading hreason
    | none =>
      cases hcontent : i.content? with
      | some frame => exact ht.readText htold' hreading hreason hcontent
      | none =>
        refine ht.concat ?_ ?_
        · rw [contents_concat, hcontent]
          simp
        · rw [failure?_concat, hreason, Option.or_none]
  · rename_i h
    rcases hs with hs | ⟨hread, hfate⟩
    · exact .inl hs
    -- A connection that lives is read, so that this one has failed.
    obtain ⟨reason, hfailed⟩ : ∃ reason, failure? items = some reason := by
      cases hf : failure? items with
      | some reason => exact ⟨reason, rfl⟩
      | none =>
        rw [fateOf, hf] at hfate
        obtain ⟨rfl, hopen⟩ := htold.live_iff.mp hfate
        exact absurd (hreads hopen) h
    refine TakenIn.concat (.inr ⟨hread, hfate⟩) ?_ ?_
    · rw [contents_concat, hfailed]
      simp
    · rw [failure?_concat, hfailed]
      rfl

/-- What the moves between two items bring about. -/
theorem TakenIn.meanwhile (hs : TakenIn g read items s) {m : Move} (hm : m.handles g = false) :
    TakenIn g read items (m.apply s) := by
  refine hs.grows ((m.grows s).mono fun e he => ?_)
  cases hc : e.isOfConnection with
  | false => exact idles_of_not_isOfConnection hc
  | true => exact (he hc).idles hm

/-- Whatever happens between them, all items that arrive are taken in. -/
theorem takenIn_afterArrivals (hs : TakenIn g read items s) (htold : Told none s) (hreads : s.ReadsOpen)
    {arrivals : List Arrival} (hm : ∀ m, .meanwhile m ∈ arrivals → m.handles g = false) :
    TakenIn g read (items ++ itemsOf arrivals) (s.afterArrivals g arrivals) ∧
      Told none (s.afterArrivals g arrivals) ∧ (s.afterArrivals g arrivals).ReadsOpen := by
  induction arrivals generalizing s items with
  | nil => exact ⟨by rw [itemsOf, List.filterMap_nil, List.append_nil]; exact hs, htold, hreads⟩
  | cons a arrivals ih =>
    have hrest : ∀ m, .meanwhile m ∈ arrivals → m.handles g = false := fun m h =>
      hm m (List.mem_cons_of_mem a h)
    cases a with
    | item i =>
      have hafter : Told none (s.receive g i) ∧ (s.receive g i).ReadsOpen := by
        rw [State.receive]
        split
        · exact ⟨State.after_keeps Told.move htold _, State.after_keeps State.ReadsOpen.move hreads _⟩
        · exact ⟨htold, hreads⟩
      have hnext := ih (hs.receive htold hreads i) hafter.1 hafter.2 hrest
      rw [List.append_assoc] at hnext
      exact hnext
    | meanwhile m =>
      exact ih (hs.meanwhile (hm m List.mem_cons_self)) (Told.move m s htold) (.move m s hreads) hrest

/-- After the last item the stream ends, which nobody waits for when an item was a failure. -/
def State.endItems (g : Nat) (items : List Item) (s : State) : State :=
  if (failure? items).isSome then s else Move.apply (.readEnd g) s

/-- The events at the end of these items. -/
def ending (items : List Item) : List Transport.Event :=
  match failure? items with
  | some reason => [.failed (Fault.transport reason).message, .closed .byFailure]
  | none => [.closed .byPeer]

/-- The end of the stream ends the connection that is read, and gives no frame. -/
theorem readEnd_course (h : s.reading g = true) (hlive : fate g s.journal = .live) :
    frames g (Move.apply (.readEnd g) s).journal = frames g s.journal ∧
      fate g (Move.apply (.readEnd g) s).journal = .finished := by
  obtain ⟨more, hj⟩ := (candid s).readEnd g h
  obtain ⟨added, hadded, hreports⟩ := Move.grows (.readEnd g) s
  constructor
  · have hframes : frames g added = [] := frames_of_reports hreports fun frame h => by cases h
    rw [hadded, frames_append, hframes, List.append_nil]
  · have hfinished : Fate.live.after g (.streamEnded g) = .finished := if_pos rfl
    rw [hj, fate_append, hlive, List.foldl_cons, hfinished, Fate.foldl_of_isOver rfl]

private theorem TakenIn.ended (ht : TakenIn g (frames g s.journal) items t) (hs : Told none s)
    (hlive : fate g s.journal = .live) (htold : Told none t) (hstays : (fate g t.journal).isLeft = false)
    {reason : String} (hfailure : failure? items = some reason) (later : List Move) :
    events g (t.after later).journal =
      events g s.journal ++ (contents items).map .message ++ ending items := by
  obtain ⟨hframes, hfate⟩ := ht.resolve_left (Bool.eq_false_iff.mp hstays)
  have hfailed : fate g t.journal = .failed (Fault.transport reason).message := by
    rw [hfate, fateOf, hfailure]
    rfl
  rw [htold.events_of_isOver (by rw [hfailed]; rfl),
    hs.events_since hlive htold hframes (by rw [hfailed]; nofun), hfailed, ending, hfailure]
  rfl

private theorem TakenIn.living (ht : TakenIn g (frames g s.journal) items t) (hs : Told none s)
    (hlive : fate g s.journal = .live) (htold : Told none t) (hreads : t.ReadsOpen)
    (hstays : (fate g t.journal).isLeft = false) (hfailure : failure? items = none) :
    (g = t.transport.generation ∧ t.transport.state = .opened) ∧
      events g t.journal = events g s.journal ++ (contents items).map .message ∧
      ∀ later, events g ((Move.apply (.readEnd g) t).after later).journal =
        events g s.journal ++ (contents items).map .message ++ ending items := by
  obtain ⟨hframes, hfate⟩ := ht.resolve_left (Bool.eq_false_iff.mp hstays)
  have hlives : fate g t.journal = .live := by
    rw [hfate, fateOf, hfailure]
    rfl
  have hopen := htold.live_iff.mp hlives
  obtain ⟨hread, hfinished⟩ := readEnd_course (hopen.1 ▸ hreads hopen.2) hlives
  have hend := Told.move (.readEnd g) t htold
  refine ⟨hopen, ?_, fun later => ?_⟩
  · rw [hs.events_since hlive htold hframes (by rw [hlives]; nofun), hlives]
    exact List.append_nil _
  · rw [hend.events_of_isOver (by rw [hfinished]; rfl),
      hs.events_since hlive hend (hread.trans hframes) (by rw [hfinished]; nofun), hfinished, ending,
      hfailure]
    rfl

/-- The items that arrive over a WebSocket are told as they are. From an open connection on, whatever
else goes on between the items and whatever the handlers do, as long as nobody breaks or leaves the
connection, the client tells of one message for each text and for each sequence of bytes that is UTF-8, in
order and unchanged, up to the first failure. The failure is told, and then that it has closed the
connection. Without one the connection stays open for as long as items arrive, and their end closes it for
the peer. Nothing is told after that, whatever comes later. -/
theorem events_of_items {layer : Layer} {options : Options} {timeout : Nat} {moves : List Move}
    (hs : s = (State.new layer options timeout).after moves)
    (hopen : s.transport.generation = g ∧ s.transport.state = .opened) {arrivals : List Arrival}
    (ht : t = s.afterArrivals g arrivals) (hm : ∀ m, .meanwhile m ∈ arrivals → m.handles g = false)
    (hstays : (fate g t.journal).isLeft = false) :
    let items := itemsOf arrivals
    let told := events g s.journal ++ (contents items).map .message
    events g t.journal = (if (failure? items).isSome then told ++ ending items else told) ∧
    (failure? items = none → t.transport.generation = g ∧ t.transport.state = .opened) ∧
    ∀ later, events g ((t.endItems g items).after later).journal = told ++ ending items := by
  intro items told
  have hstart : Told none s := hs ▸ State.after_keeps Told.move (told_new layer options timeout) moves
  have hreads : s.ReadsOpen :=
    hs ▸ State.after_keeps State.ReadsOpen.move (readsOpen_new layer options timeout) moves
  have hlive : fate g s.journal = .live := hstart.live_iff.mpr ⟨hopen.1.symm, hopen.2⟩
  have hnone : TakenIn g (frames g s.journal) [] s := .inr ⟨(List.append_nil _).symm, hlive⟩
  obtain ⟨htaken, htold, hreads'⟩ := takenIn_afterArrivals hnone hstart hreads hm
  rw [List.nil_append, ← ht] at htaken
  rw [← ht] at htold hreads'
  cases hfailure : failure? items with
  | some reason =>
    have htells := htaken.ended hstart hlive htold hstays hfailure
    refine ⟨htells [], nofun, fun later => ?_⟩
    rw [State.endItems, if_pos (by rw [hfailure]; rfl)]
    exact htells later
  | none =>
    obtain ⟨hstill, hbefore, htells⟩ := htaken.living hstart hlive htold hreads' hstays hfailure
    refine ⟨hbefore, fun _ => ⟨hstill.1.symm, hstill.2⟩, fun later => ?_⟩
    rw [State.endItems, if_neg (by rw [hfailure]; nofun)]
    exact htells later

/-- A server answers with text and with bytes, some of them no text, and then the socket is lost. -/
def chatter : List Arrival :=
  [.item (.text "a"), .item (.ping [1]), .meanwhile (.send "b"), .item (.binary [0xFF]),
    .item (.binary [0x63]), .item (.close none), .item (.failure "reset"), .item (.text "d")]

def connected : State := (State.new .transport .standard 30000).after [.connect, .found 1 0]

theorem events_of_items_chatter :
    (connected.transport.generation = 1 ∧ connected.transport.state = .opened) ∧
      (∀ m, .meanwhile m ∈ chatter → m.handles 1 = false) ∧
      (fate 1 (connected.afterArrivals 1 chatter).journal).isLeft = false ∧
      ∀ later, events 1 ((connected.afterArrivals 1 chatter).after later).journal = [.opened, .message "a",
        .message "c", .failed "transport error: reset", .closed .byFailure] := by
  have hopen : connected.transport.generation = 1 ∧ connected.transport.state = .opened := ⟨rfl, rfl⟩
  have hm : ∀ m, .meanwhile m ∈ chatter → m.handles 1 = false := by
    intro m h
    obtain rfl : m = .send "b" := by simpa [chatter] using h
    rfl
  have hstays : (fate 1 (connected.afterArrivals 1 chatter).journal).isLeft = false := by decide +kernel
  have hstart : connected = (State.new .transport .standard 30000).after [.connect, .found 1 0] := rfl
  have htells := (events_of_items hstart hopen rfl hm hstays).2.2
  have hcontents : contents (itemsOf chatter) = ["a", "c"] := by decide +kernel
  refine ⟨hopen, hm, hstays, fun later => ?_⟩
  rw [hcontents] at htells
  exact htells later

end Client

end LanguageClient
