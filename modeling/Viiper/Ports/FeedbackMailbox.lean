import Viiper.Ports.FeedbackFrame
import Viiper.Verified.Run

/-!
# The feedback mailbox

`Mailbox` of `controllerfeedback` holds one replaceable snapshot under a revision; a
`ClaimCursor` remembers which revision its consumer applied and which it released.  One
claim may be in flight; a publisher may publish between any two calls of the consumer.

A cursor binds itself to the first mailbox it claims from.  A copied cursor, or one bound
elsewhere, is refused by every method without effect, so the machine is one mailbox with
one cursor; `bound` is the cursor's `self` pointer being set.  The `hasValue` flag and
`latest` are one `Option`.
-/

namespace Viiper.Ports.Feedback

open Verified Go Run

structure Mailbox where
  latest : Option Frame := none
  revision : UInt64 := 0
  deriving DecidableEq

inductive ClaimDisposition
  | none | frame | release
  deriving DecidableEq

structure ClaimCursor where
  (appliedRevision releasedRevision nextToken inFlightToken inFlightRevision : UInt64 := 0)
  inFlightDisposition : ClaimDisposition := .none
  (inFlightCompletesRelease bound : Bool := false)
  deriving DecidableEq

def Mailbox.publish (mailbox : Mailbox) (frame : Frame) : Mailbox × Bool :=
  if frame.valid = false then (mailbox, false)
  else
    match mailbox.latest with
    | some latest =>
      if newer frame latest = false then (mailbox, false)
      else (⟨some frame, bump mailbox.revision⟩, true)
    | none => (⟨some frame, bump mailbox.revision⟩, true)

def ClaimCursor.beginClaim (cursor : ClaimCursor) (revision : UInt64)
    (disposition : ClaimDisposition) (completesRelease : Bool) : ClaimCursor × UInt64 :=
  let token := bump cursor.nextToken
  ({ cursor with
      nextToken := token
      inFlightToken := token
      inFlightRevision := revision
      inFlightDisposition := disposition
      inFlightCompletesRelease := completesRelease }, token)

def Mailbox.claim (mailbox : Mailbox) (nowMicroseconds : UInt64) (unbound : ClaimCursor) :
    ClaimCursor × (Frame × ClaimDisposition × UInt64) :=
  let cursor := { unbound with bound := true }
  match mailbox.latest with
  | none => (cursor, ({}, .none, 0))
  | some latest =>
    if cursor.inFlightToken ≠ 0 then (cursor, ({}, .none, 0))
    else if latest.freshAt nowMicroseconds then
      if cursor.appliedRevision = mailbox.revision then
        (cursor, ({}, .none, 0))
      else
        let r := cursor.beginClaim mailbox.revision .frame (latest.command == commandStop)
        (r.1, (latest, .frame, r.2))
    else if cursor.releasedRevision = mailbox.revision then
      (cursor, ({}, .none, 0))
    else
      let r := cursor.beginClaim mailbox.revision .release true
      (r.1, ({}, .release, r.2))

/-- The check of the presented token shared by `CanDeliver` and `Complete`. -/
def ClaimCursor.holds (cursor : ClaimCursor) (token : UInt64) : Bool :=
  token != 0 && cursor.bound && cursor.inFlightToken == token &&
    (cursor.inFlightDisposition == .frame || cursor.inFlightDisposition == .release)

def Mailbox.canDeliver (mailbox : Mailbox) (cursor : ClaimCursor)
    (token nowMicroseconds : UInt64) : Bool :=
  if cursor.holds token = false then false
  else
    match mailbox.latest with
    | none => false
    | some latest =>
      if mailbox.revision ≠ cursor.inFlightRevision then false
      else if cursor.inFlightDisposition = .frame then
        latest.freshAt nowMicroseconds
      else latest.expiredAt nowMicroseconds

def ClaimCursor.complete (cursor : ClaimCursor) (token : UInt64)
    (delivered : Bool) : ClaimCursor × Bool :=
  if cursor.holds token = false then (cursor, false)
  else
    let advanced :=
      if delivered then
        { cursor with
          appliedRevision := cursor.inFlightRevision
          releasedRevision :=
            if cursor.inFlightCompletesRelease then cursor.inFlightRevision
            else cursor.releasedRevision }
      else cursor
    ({ advanced with
        inFlightToken := 0
        inFlightRevision := 0
        inFlightDisposition := .none
        inFlightCompletesRelease := false }, true)

/-! ## The machine -/

/-- A mailbox with its one cursor; the defaults are the zero values. -/
structure Channel where
  mailbox : Mailbox := {}
  cursor : ClaimCursor := {}
  deriving DecidableEq

namespace Channel

inductive Op
  | publish (frame : Frame)
  | claim (nowMicroseconds : UInt64)
  | canDeliver (token nowMicroseconds : UInt64)
  | complete (token : UInt64) (delivered : Bool)

inductive Out
  | answer (ok : Bool)
  | claimed (frame : Frame) (disposition : ClaimDisposition) (token : UInt64)
  deriving DecidableEq

def step (channel : Channel) : Op → Channel × Out
  | .publish frame =>
    let r := channel.mailbox.publish frame
    ({ channel with mailbox := r.1 }, .answer r.2)
  | .claim nowMicroseconds =>
    let r := channel.mailbox.claim nowMicroseconds channel.cursor
    ({ channel with cursor := r.1 }, .claimed r.2.1 r.2.2.1 r.2.2.2)
  | .canDeliver token nowMicroseconds =>
    (channel, .answer (channel.mailbox.canDeliver channel.cursor token nowMicroseconds))
  | .complete token delivered =>
    let r := channel.cursor.complete token delivered
    ({ channel with cursor := r.1 }, .answer r.2)

abbrev ChannelEvent := Event Channel Op Out

/-- Whether an event published a new revision. -/
def publishes (e : ChannelEvent) : Bool :=
  match e.op, e.out with
  | .publish _, .answer accepted => accepted
  | _, _ => false

def tokenIssuedBy (e : ChannelEvent) : Option UInt64 :=
  match e.op, e.out with
  | .claim _, .claimed _ disposition token =>
    if disposition = .none then none else some token
  | _, _ => none

/-- Whether an event completed a claim with `delivered == true`. -/
def delivers (e : ChannelEvent) : Bool :=
  match e.op, e.out with
  | .complete _ true, .answer completed => completed
  | _, _ => false

end Channel

end Viiper.Ports.Feedback
