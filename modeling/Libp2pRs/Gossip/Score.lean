import Libp2pRs.Gossip.Types
import Libp2pRs.Lib.Maps
import Libp2pRs.Lib.Random

/-!
# What gossipsub asks of the peer score

Gossipsub reads a score for a peer and compares it with thresholds. It reports to the score what
the peer does. Nothing is assumed of the numbers and of the score: every result about gossipsub
holds for any score. `GossipPromises` remembers the messages that peers have promised.
-/

namespace Libp2pRs.Gossip

open Lib Libp2pRs.Core Std

/-- The operations on scores that gossipsub uses. The comparisons are those of `f64`, where a
score that is not a number is neither below nor above another. -/
class ScoreArith (R : Type) where
  zero : R
  lt : R → R → Bool
  le : R → R → Bool
  /-- `(a + b) * 0.5`. -/
  middle : R → R → R

instance : ScoreArith ℚ where
  zero := 0
  lt a b := decide (a < b)
  le a b := decide (a ≤ b)
  middle a b := (a + b) / 2

/-- A law of `f64`: a number below zero is not at least zero. -/
class LawfulScoreArith (R : Type) [ScoreArith R] : Prop where
  le_eq_false {a : R} : ScoreArith.lt a ScoreArith.zero = true → ScoreArith.le ScoreArith.zero a = false

instance : LawfulScoreArith ℚ where
  le_eq_false h := by simpa [ScoreArith.lt, ScoreArith.le] using h

/-- The calls that gossipsub makes to a score of type `P` whose numbers are of type `R`. -/
class PeerScoring (P : Type) (R : outParam Type) where
  score : P → PeerId → R
  addPenalty : PeerId → Nat → P → P
  addPeer : PeerId → P → P
  removePeer : Instant → PeerId → P → P
  graft : PeerId → TopicHash → P → P
  prune : PeerId → TopicHash → P → P
  validateMessage : Instant → PeerId → MessageId → TopicHash → P → P
  deliverMessage : Instant → PeerId → MessageId → TopicHash → P → P
  rejectInvalidMessage : PeerId → TopicHash → P → P
  rejectMessage : Instant → PeerId → MessageId → TopicHash → RejectReason → P → P
  duplicatedMessage : Instant → PeerId → MessageId → TopicHash → P → P

instance : PeerScoring Empty ℚ where
  score p := nomatch p
  addPenalty _ _ p := p
  addPeer _ p := p
  removePeer _ _ p := p
  graft _ _ p := p
  prune _ _ p := p
  validateMessage _ _ _ _ p := p
  deliverMessage _ _ _ _ p := p
  rejectInvalidMessage _ _ p := p
  rejectMessage _ _ _ _ _ p := p
  duplicatedMessage _ _ _ _ p := p

structure SteadyScore where
  scoreOf : PeerId → ℚ

instance : PeerScoring SteadyScore ℚ where
  score p := p.scoreOf
  addPenalty _ _ p := p
  addPeer _ p := p
  removePeer _ _ p := p
  graft _ _ p := p
  prune _ _ p := p
  validateMessage _ _ _ _ p := p
  deliverMessage _ _ _ _ p := p
  rejectInvalidMessage _ _ p := p
  rejectMessage _ _ _ _ _ p := p
  duplicatedMessage _ _ _ _ p := p

structure PeerScoreThresholds (R : Type) where
  gossipThreshold : R
  publishThreshold : R
  graylistThreshold : R
  acceptPxThreshold : R
  opportunisticGraftThreshold : R

def PeerScoreThresholds.validate {R : Type} [ScoreArith R] (t : PeerScoreThresholds R) :
    Except String Unit :=
  let gt := fun a b : R => ScoreArith.lt b a
  if gt t.gossipThreshold ScoreArith.zero then
    .error "invalid gossip threshold; it must be <= 0"
  else if gt t.publishThreshold ScoreArith.zero || gt t.publishThreshold t.gossipThreshold then
    .error "Invalid publish threshold; it must be <= 0 and <= gossip threshold"
  else if gt t.graylistThreshold ScoreArith.zero || gt t.graylistThreshold t.publishThreshold then
    .error "Invalid graylist threshold; it must be <= 0 and <= publish threshold"
  else if ScoreArith.lt t.acceptPxThreshold ScoreArith.zero then
    .error "Invalid accept px threshold; it must be >= 0"
  else if ScoreArith.lt t.opportunisticGraftThreshold ScoreArith.zero then
    .error "Invalid opportunistic grafting threshold; it must be >= 0"
  else .ok ()

def zeroThreshold {R : Type} [ScoreArith R] : PeerScoreThresholds R → R := fun _ => ScoreArith.zero

/-! ## The promises -/

structure GossipPromises where
  promises : TreeMap MessageId (TreeMap PeerId Instant) := ∅

namespace GossipPromises

/-- Tracks one of the messages, which is chosen at random. A promise that exists keeps its
expiration. -/
def addPromise (g : GossipPromises) (rng : Rng) (peer : PeerId) (messages : List MessageId)
    (expires : Instant) : GossipPromises × Rng :=
  let r := rng.shuffle messages
  match r.1 with
  | [] => (g, r.2)
  | id :: _ =>
    let peers := g.promises[id]?.getD ∅
    (⟨g.promises.insert id (peers.insertIfNew peer expires)⟩, r.2)

def messageDelivered (g : GossipPromises) (id : MessageId) : GossipPromises :=
  ⟨g.promises.erase id⟩

/-- An invalid signature or a message of our own does not release the promise. -/
def rejectMessage (g : GossipPromises) (id : MessageId) : RejectReason → GossipPromises
  | .validationError .invalidSignature => g
  | .selfOrigin => g
  | _ => ⟨g.promises.erase id⟩

/-- The peers with an expired promise, and how many each of them broke. -/
def getBrokenPromises (g : GossipPromises) (now : Instant) :
    TreeMap PeerId Nat × GossipPromises :=
  let broken := g.promises.toList.flatMap (fun m =>
    (m.2.toList.filter (fun e => e.2 < now)).map Prod.fst)
  let counts := broken.foldl (fun (n : TreeMap PeerId Nat) p => n.insert p (n[p]?.getD 0 + 1)) ∅
  let left := g.promises.filterMap (fun _ peers =>
    let peers := peers.filter (fun _ expires => now ≤ expires)
    if peers.isEmpty then none else some peers)
  (counts, ⟨left⟩)

end GossipPromises

structure ScoreState (P R : Type) where
  peerScore : P
  thresholds : PeerScoreThresholds R
  gossipPromises : GossipPromises := {}

end Libp2pRs.Gossip
