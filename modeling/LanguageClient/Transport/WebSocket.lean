import LanguageClient.Fault
import LanguageClient.Text.Utf8
/-!
Frames over a WebSocket. Text items and binary items that are UTF-8 are frames; other binary
items are dropped with a note and control items are passed over. The first item that the
WebSocket itself reports as a failure ends the stream.
-/
namespace LanguageClient.Transport.WebSocket
open Text

inductive Item where
  | text (s : String)
  | binary (bytes : List UInt8)
  | ping (bytes : List UInt8)
  | pong (bytes : List UInt8)
  | close (code : Option Nat)
  | raw (bytes : List UInt8)
  | failure (reason : String)
  deriving DecidableEq, Repr

/-- What one item brings: perhaps a frame or a fault, perhaps a note. -/
def inbound (item : Item) : Option (Outcome String) × List String :=
  match item with
  | .text s => (some (.ok s), [])
  | .binary bs =>
    match Utf8.decode bs with
    | .ok cs => (some (.ok (String.ofList cs)), [])
    | .error _ => (none, ["dropping non UTF-8 binary frame"])
  | .failure reason => (some (.error (.transport reason)), [])
  | .ping _ | .pong _ | .close _ | .raw _ => (none, [])

structure Transcript where
  frames : List String
  notes : List String
  fault : Option Fault
  deriving Repr

/-- All that a sequence of items delivers. -/
def readAll : List Item → Transcript
  | [] => ⟨[], [], none⟩
  | item :: items =>
    match inbound item with
    | (some (.error f), notes) => ⟨[], notes, some f⟩
    | (some (.ok frame), notes) =>
      let t := readAll items
      ⟨frame :: t.frames, notes ++ t.notes, t.fault⟩
    | (none, notes) =>
      let t := readAll items
      ⟨t.frames, notes ++ t.notes, t.fault⟩

/-- The fault of a connection attempt that failed. -/
def connectFault (url reason : String) : Fault :=
  .transport ("failed to connect to " ++ url ++ ": " ++ reason)

end LanguageClient.Transport.WebSocket
