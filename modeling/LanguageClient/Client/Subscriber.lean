import LanguageClient.Registry
import LanguageClient.Json.Value
import LanguageClient.Transport.Event
/-!
Subscribers: what can be subscribed to, and what a handler does when it is called. A subscriber of
the user's own is a name and a list of actions; the others belong to the client.
-/
namespace LanguageClient.Client
open Transport

/-- What a handler listens to. -/
inductive Topic where
  | event (kind : EventKind)
  | method (name : String)
  deriving DecidableEq, Repr

inductive Action where
  /-- The handler fails; the actions after this one are skipped. -/
  | fail
  | unsubscribe (name : String)
  | subscribe (topic : Topic) (raw : Bool) (name : String) (actions : List Action)
  | send (frame : String)
  | disconnect
  | notify (method : String) (params : Json.Value)
  | cancel (token : String)
  | abort (reason : String)

/-- A subscriber of the user's own; a raw one hears only that the event came. -/
structure Subscriber where
  name : String
  raw : Bool
  actions : List Action

inductive Handler where
  | engine
  /-- Rejects every pending request when the connection closes. -/
  | abortPending
  | forwardLog
  | diagnostics (name : String)
  | user (s : Subscriber)

end LanguageClient.Client
