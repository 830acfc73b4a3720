import PenStream.Json.Basic

namespace PenStream.Json

def hexDigits (width n : Nat) : String :=
  let digits := Nat.toDigits 16 n
  String.ofList (List.replicate (width - digits.length) '0' ++ digits)

def escapeChar (c : Char) : String :=
  match c with
  | '"'    => "\\\""
  | '\\'   => "\\\\"
  | '\n'   => "\\n"
  | '\r'   => "\\r"
  | '\t'   => "\\t"
  | '\x08' => "\\b"
  | '\x0c' => "\\f"
  | c      => if c.toNat < 0x20 then "\\u" ++ hexDigits 4 c.toNat else c.toString

def quote (s : String) : String :=
  "\"" ++ String.join (s.toList.map escapeChar) ++ "\""

def newLine (depth : Nat) : String :=
  "\n" ++ "".pushn ' ' (2 * depth)

mutual

-- The text so far and behind it that of a value at a depth of nesting.
def prettyInto (depth : Nat) (text : String) : Json → String
  | null          => text ++ "null"
  | bool true     => text ++ "true"
  | bool false    => text ++ "false"
  | integer n     => text ++ toString n
  | decimal d     => text ++ d
  | string s      => text ++ quote s
  | array []      => text ++ "[]"
  | array items   => prettyItems (depth + 1) (text ++ "[") items ++ newLine depth ++ "]"
  | object []     => text ++ "\x7b\x7d"
  | object fields => prettyFields (depth + 1) (text ++ "\x7b") fields ++ newLine depth ++ "\x7d"

def prettyItems (depth : Nat) (text : String) : List Json → String
  | []            => text
  | [item]        => prettyInto depth (text ++ newLine depth) item
  | item :: items =>
    prettyItems depth (prettyInto depth (text ++ newLine depth) item ++ ",") items

def prettyFields (depth : Nat) (text : String) : List (String × Json) → String
  | []                    => text
  | [(name, value)]       => prettyInto depth (text ++ newLine depth ++ quote name ++ ": ") value
  | (name, value) :: rest =>
    prettyFields depth
      (prettyInto depth (text ++ newLine depth ++ quote name ++ ": ") value ++ ",") rest

end

def pretty : Json → String :=
  prettyInto 0 ""

mutual

theorem prettyInto_eq (depth : Nat) (text : String) : ∀ j : Json,
    prettyInto depth text j = text ++ prettyInto depth "" j
  | null | bool true | bool false | integer _ | decimal _ | string _ | array [] | object [] => by
    simp [prettyInto]
  | array (item :: items) => by
    simp only [prettyInto]
    rw [prettyItems_eq, prettyItems_eq _ ("" ++ "[")]
    simp [String.append_assoc]
  | object (field :: fields) => by
    simp only [prettyInto]
    rw [prettyFields_eq, prettyFields_eq _ ("" ++ "\x7b")]
    simp [String.append_assoc]

theorem prettyItems_eq (depth : Nat) (text : String) : ∀ items : List Json,
    prettyItems depth text items = text ++ prettyItems depth "" items
  | []     => by simp [prettyItems]
  | [item] => by
    simp only [prettyItems]
    rw [prettyInto_eq, prettyInto_eq _ ("" ++ _)]
    simp [String.append_assoc]
  | item :: next :: items => by
    simp only [prettyItems]
    rw [prettyItems_eq, prettyItems_eq _ (_ ++ ","), prettyInto_eq, prettyInto_eq _ ("" ++ _)]
    simp [String.append_assoc]

theorem prettyFields_eq (depth : Nat) (text : String) : ∀ fields : List (String × Json),
    prettyFields depth text fields = text ++ prettyFields depth "" fields
  | []              => by simp [prettyFields]
  | [(name, value)] => by
    simp only [prettyFields]
    rw [prettyInto_eq, prettyInto_eq _ ("" ++ _ ++ _ ++ _)]
    simp [String.append_assoc]
  | (name, value) :: next :: fields => by
    simp only [prettyFields]
    rw [prettyFields_eq, prettyFields_eq _ (_ ++ ","), prettyInto_eq,
      prettyInto_eq _ ("" ++ _ ++ _ ++ _)]
    simp [String.append_assoc]

end

end PenStream.Json
