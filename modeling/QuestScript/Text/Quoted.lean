import QuestScript.Text.Hex
import QuestScript.Text.Unshown

/-! Text between double quotes, with everything a page would not show spelled out. -/

namespace QuestScript

/-- A character inside quotes. -/
def quotedChar : Char → String
  | '"' => "\\\""
  | '\\' => "\\\\"
  | '\n' => "\\n"
  | '\r' => "\\r"
  | '\t' => "\\t"
  | '\x00' => "\\0"
  | c => if isUnshown c then "\\u\x7b" ++ hexDigits 1 c.toNat ++ "\x7d" else c.toString

/-- A text between double quotes. -/
def quoted (text : String) : String :=
  "\"" ++ String.join (text.toList.map quotedChar) ++ "\""

end QuestScript
