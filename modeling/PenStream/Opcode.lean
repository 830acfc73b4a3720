namespace PenStream

-- An instruction is introduced by a bar or by an exclamation mark.
def isIntroducer (c : Char) : Bool :=
  c = '|' || c = '!'

inductive Opcode
  | color
  | line
  | rectangle
  | bar
  | circle
  | oval
  | pixel
  | move
  | lineTo
  | polyline
  | fillStyle
  | floodFill
  | reset
  | textWindow
deriving DecidableEq, Repr

namespace Opcode

-- Every opcode, in the order of the listings.
def all : List Opcode :=
  [color, line, rectangle, bar, circle, oval, pixel, move, lineTo, polyline, fillStyle, floodFill,
   reset, textWindow]

def letter : Opcode → Char
  | color      => 'c'
  | line       => 'L'
  | rectangle  => 'R'
  | bar        => 'B'
  | circle     => 'C'
  | oval       => 'O'
  | pixel      => 'X'
  | move       => 'm'
  | lineTo     => 'l'
  | polyline   => 'P'
  | fillStyle  => 'S'
  | floodFill  => 'F'
  | reset      => '*'
  | textWindow => 'w'

def name : Opcode → String
  | color      => "color"
  | line       => "line"
  | rectangle  => "rectangle"
  | bar        => "bar"
  | circle     => "circle"
  | oval       => "oval"
  | pixel      => "pixel"
  | move       => "move"
  | lineTo     => "line to"
  | polyline   => "polyline"
  | fillStyle  => "fill style"
  | floodFill  => "flood fill"
  | reset      => "reset"
  | textWindow => "text window"

-- How many characters of parameters an instruction needs at least.
def minLength : Opcode → Nat
  | color      => 2
  | line       => 8
  | rectangle  => 8
  | bar        => 8
  | circle     => 6
  | oval       => 10
  | pixel      => 4
  | move       => 4
  | lineTo     => 4
  | polyline   => 1
  | fillStyle  => 2
  | floodFill  => 5
  | reset      => 0
  | textWindow => 8

-- The parameters as listings show them: a coordinate, unless marked `(1)`, takes two digits.
def layout : Opcode → String
  | color      => "fg(1) bg(1)"
  | line       => "x0 y0 x1 y1"
  | rectangle  => "x0 y0 x1 y1"
  | bar        => "x0 y0 x1 y1"
  | circle     => "cx cy r"
  | oval       => "cx cy sa ea rx [ry]"
  | pixel      => "x y"
  | move       => "x y"
  | lineTo     => "x y"
  | polyline   => "count(1) \x7bx y\x7d*count"
  | fillStyle  => "style(1) color(1)"
  | floodFill  => "x y border(1)"
  | reset      => ""
  | textWindow => "x0 y0 x1 y1"

def ofLetter? (c : Char) : Option Opcode :=
  all.find? (·.letter = c)

theorem ofLetter?_letter (op : Opcode) : ofLetter? op.letter = some op := by
  cases op <;> decide

theorem letter_of_ofLetter? {c : Char} {op : Opcode} (h : ofLetter? c = some op) :
    op.letter = c := by
  simpa using List.find?_some h

end Opcode

end PenStream
