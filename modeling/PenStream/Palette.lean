import PenStream.Color

namespace PenStream.Palette

-- The colours by index, with their names.
def entries : List (String × Color) :=
  [("black", .ofRgb24 0x000000), ("blue", .ofRgb24 0x0000AA), ("green", .ofRgb24 0x00AA00),
   ("cyan", .ofRgb24 0x00AAAA), ("red", .ofRgb24 0xAA0000), ("magenta", .ofRgb24 0xAA00AA),
   ("brown", .ofRgb24 0xAA5500), ("light gray", .ofRgb24 0xAAAAAA),
   ("dark gray", .ofRgb24 0x555555), ("light blue", .ofRgb24 0x5555FF),
   ("light green", .ofRgb24 0x55FF55), ("light cyan", .ofRgb24 0x55FFFF),
   ("light red", .ofRgb24 0xFF5555), ("light magenta", .ofRgb24 0xFF55FF),
   ("yellow", .ofRgb24 0xFFFF55), ("white", .ofRgb24 0xFFFFFF)]

def fallback : Color :=
  .ofRgb24 0xFFFFFF

def color (index : UInt8) : Color :=
  match entries[index.toNat]? with
  | some (_, c) => c
  | none        => fallback

def name? (index : UInt8) : Option String :=
  entries[index.toNat]?.map (·.1)

-- The colour of a surface before anything is drawn, and after a reset.
def background : Color :=
  color 0

end PenStream.Palette
