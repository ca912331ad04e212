import DiceRooms.Roll

/-!
Who decides the sides of a roll. A roller sets the sides of dice that lie unthrown and
may change itself in doing so; a random one takes its numbers from a stream.
-/
namespace DiceRooms

structure RollerError where
  reason : String
deriving DecidableEq

/-- A stream of numbers told by its seed. -/
structure Entropy where
  state : Nat
deriving DecidableEq

/-- A number below `n`, if there is one, and the stream behind it. -/
def Entropy.below (e : Entropy) (n : Nat) : Nat × Entropy :=
  let next := (e.state * 6364136223846793005 + 1442695040888963407) % UInt64.size
  (next / 0x200000000 % n, ⟨next⟩)

theorem Entropy.below_lt (e : Entropy) {n : Nat} (h : 0 < n) : (e.below n).1 < n :=
  Nat.mod_lt _ h

inductive Roller
  /-- Sides from a list in turn, over and over; `next` is the place of the next one. -/
  | listed (sides : List UInt64) (next : Nat)
  | failing (reason : String)
  | random (source : Entropy)
deriving DecidableEq

namespace Roller

def rollListed (sides : List UInt64) : Nat → List Die → List Die × Nat
  | next, [] => ([], next)
  | next, d :: dice =>
    let (rolled, last) := rollListed sides (next + 1) dice
    ({ d with side := sides.getD (next % sides.length) d.side } :: rolled, last)

def rollRandom : Entropy → List Die → List Die × Entropy
  | e, [] => ([], e)
  | e, d :: dice =>
    let (n, e) := e.below d.type.sides
    let (rolled, e) := rollRandom e dice
    ({ d with side := UInt64.ofNat (n + 1) } :: rolled, e)

/-- Throws the dice of a roll. -/
def roll (r : Roller) (dice : List Die) : Roller × Except RollerError (List Die) :=
  match r with
  | listed sides next =>
    let (rolled, next) := rollListed sides next dice
    (listed sides next, .ok rolled)
  | failing reason => (failing reason, .error ⟨reason⟩)
  | random source =>
    let (rolled, source) := rollRandom source dice
    (random source, .ok rolled)

end Roller

end DiceRooms
