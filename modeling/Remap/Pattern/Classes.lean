import Remap.Entries
import Remap.Pattern.CharSet
import Remap.Text.Basic

/-!
# Named classes of characters

The classes that patterns name: the short ones such as `\d`, those of brackets such as
`[:alpha:]`, and properties of the Unicode character database such as `\p{Lu}`.
-/

namespace Remap.Pattern

/-- A short class. -/
inductive Short where
  | digit
  | space
  | word
deriving DecidableEq, Repr

namespace Short

def spaceSet : CharSet :=
  ⟨[(9, 13), (0x20, 0x20), (0x85, 0x85), (0xA0, 0xA0), (0x1680, 0x1680), (0x2000, 0x200A),
    (0x2028, 0x2029), (0x202F, 0x202F), (0x205F, 0x205F), (0x3000, 0x3000)]⟩

def ascii : Short → CharSet
  | digit => ⟨[(48, 57)]⟩
  | space => ⟨[(9, 13), (32, 32)]⟩
  | word => ⟨[(48, 57), (65, 90), (95, 95), (97, 122)]⟩

def set : Short → CharSet
  | digit => digit.ascii.union (.ofTable Text.decimalRanges)
  | space => spaceSet
  | word => word.ascii.union (.ofTable Text.wordRanges)

end Short

/-- The class of a name between colons in brackets. -/
def bracketClass? : String → Option CharSet
  | "alnum" => some ⟨[(48, 57), (65, 90), (97, 122)]⟩
  | "alpha" => some ⟨[(65, 90), (97, 122)]⟩
  | "ascii" => some ⟨[(0, 127)]⟩
  | "blank" => some ⟨[(9, 9), (32, 32)]⟩
  | "cntrl" => some ⟨[(0, 31), (127, 127)]⟩
  | "digit" => some ⟨[(48, 57)]⟩
  | "graph" => some ⟨[(33, 126)]⟩
  | "lower" => some ⟨[(97, 122)]⟩
  | "print" => some ⟨[(32, 126)]⟩
  | "punct" => some ⟨[(33, 47), (58, 64), (91, 96), (123, 126)]⟩
  | "space" => some ⟨[(9, 13), (32, 32)]⟩
  | "upper" => some ⟨[(65, 90)]⟩
  | "word" => some ⟨[(48, 57), (65, 90), (95, 95), (97, 122)]⟩
  | "xdigit" => some ⟨[(48, 57), (65, 70), (97, 102)]⟩
  | _ => none

/-- The short names of the general categories that each name stands for. Names are in lower case
and without separators. -/
def categories? (name : String) : Option (List String) :=
  match name with
  | "l" | "letter" => some ["Lu", "Ll", "Lt", "Lm", "Lo"]
  | "lc" | "casedletter" => some ["Lu", "Ll", "Lt"]
  | "lu" | "uppercaseletter" => some ["Lu"]
  | "ll" | "lowercaseletter" => some ["Ll"]
  | "lt" | "titlecaseletter" => some ["Lt"]
  | "lm" | "modifierletter" => some ["Lm"]
  | "lo" | "otherletter" => some ["Lo"]
  | "m" | "mark" | "combiningmark" => some ["Mn", "Mc", "Me"]
  | "mn" | "nonspacingmark" => some ["Mn"]
  | "mc" | "spacingmark" => some ["Mc"]
  | "me" | "enclosingmark" => some ["Me"]
  | "n" | "number" => some ["Nd", "Nl", "No"]
  | "nd" | "decimalnumber" | "digit" => some ["Nd"]
  | "nl" | "letternumber" => some ["Nl"]
  | "no" | "othernumber" => some ["No"]
  | "p" | "punctuation" | "punct" => some ["Pc", "Pd", "Ps", "Pe", "Pi", "Pf", "Po"]
  | "pc" | "connectorpunctuation" => some ["Pc"]
  | "pd" | "dashpunctuation" => some ["Pd"]
  | "ps" | "openpunctuation" => some ["Ps"]
  | "pe" | "closepunctuation" => some ["Pe"]
  | "pi" | "initialpunctuation" => some ["Pi"]
  | "pf" | "finalpunctuation" => some ["Pf"]
  | "po" | "otherpunctuation" => some ["Po"]
  | "s" | "symbol" => some ["Sm", "Sc", "Sk", "So"]
  | "sm" | "mathsymbol" => some ["Sm"]
  | "sc" | "currencysymbol" => some ["Sc"]
  | "sk" | "modifiersymbol" => some ["Sk"]
  | "so" | "othersymbol" => some ["So"]
  | "z" | "separator" => some ["Zs", "Zl", "Zp"]
  | "zs" | "spaceseparator" => some ["Zs"]
  | "zl" | "lineseparator" => some ["Zl"]
  | "zp" | "paragraphseparator" => some ["Zp"]
  | "c" | "other" => some ["Cc", "Cf", "Co", "Cn"]
  | "cc" | "control" | "cntrl" => some ["Cc"]
  | "cf" | "format" => some ["Cf"]
  | "co" | "privateuse" => some ["Co"]
  | "cn" | "unassigned" => some ["Cn"]
  | _ => none

def ofCategories (names : List String) : CharSet :=
  let runs := Text.categoryRuns.toList
  let ends := (runs.drop 1).map (·.1 - 1) ++ [maxCodePoint]
  .ofRanges <| (runs.zip ends).filterMap fun ((low, name), high) =>
    if names.contains name then some (low, high) else none

def scriptText : List (String × List String) :=
  [
    ("latin",
      [ "41-5A 61-7A AA BA C0-D6 D8-F6 F8-2B8 2E0-2E4 1D00-1D25 1D2C-1D5C 1D62-1D65 1D6B-1D77",
        "1D79-1DBE 1E00-1EFF 2071 207F 2090-209C 212A-212B 2132 214E 2160-2188 2C60-2C7F",
        "A722-A787 A78B-A7CA A7D0-A7D1 A7D3 A7D5-A7D9 A7F2-A7FF AB30-AB5A AB5C-AB64 AB66-AB69",
        "FB00-FB06 FF21-FF3A FF41-FF5A 10780-10785 10787-107B0 107B2-107BA 1DF00-1DF1E",
        "1DF25-1DF2A" ]),
    ("greek",
      [ "370-373 375-377 37A-37D 37F 384 386 388-38A 38C 38E-3A1 3A3-3E1 3F0-3FF 1D26-1D2A",
        "1D5D-1D61 1D66-1D6A 1DBF 1F00-1F15 1F18-1F1D 1F20-1F45 1F48-1F4D 1F50-1F57 1F59 1F5B",
        "1F5D 1F5F-1F7D 1F80-1FB4 1FB6-1FC4 1FC6-1FD3 1FD6-1FDB 1FDD-1FEF 1FF2-1FF4 1FF6-1FFE",
        "2126 AB65 10140-1018E 101A0 1D200-1D245" ]),
    ("cyrillic",
      [ "400-484 487-52F 1C80-1C88 1D2B 1D78 2DE0-2DFF A640-A69F FE2E-FE2F 1E030-1E06D 1E08F" ]),
    ("armenian",
      [ "531-556 559-58A 58D-58F FB13-FB17" ]),
    ("hebrew",
      [ "591-5C7 5D0-5EA 5EF-5F4 FB1D-FB36 FB38-FB3C FB3E FB40-FB41 FB43-FB44 FB46-FB4F" ]),
    ("arabic",
      [ "600-604 606-60B 60D-61A 61C-61E 620-63F 641-64A 656-66F 671-6DC 6DE-6FF 750-77F 870-88E",
        "890-891 898-8E1 8E3-8FF FB50-FBC2 FBD3-FD3D FD40-FD8F FD92-FDC7 FDCF FDF0-FDFF FE70-FE74",
        "FE76-FEFC 10E60-10E7E 10EFD-10EFF 1EE00-1EE03 1EE05-1EE1F 1EE21-1EE22 1EE24 1EE27",
        "1EE29-1EE32 1EE34-1EE37 1EE39 1EE3B 1EE42 1EE47 1EE49 1EE4B 1EE4D-1EE4F 1EE51-1EE52",
        "1EE54 1EE57 1EE59 1EE5B 1EE5D 1EE5F 1EE61-1EE62 1EE64 1EE67-1EE6A 1EE6C-1EE72",
        "1EE74-1EE77 1EE79-1EE7C 1EE7E 1EE80-1EE89 1EE8B-1EE9B 1EEA1-1EEA3 1EEA5-1EEA9",
        "1EEAB-1EEBB 1EEF0-1EEF1" ]),
    ("devanagari",
      [ "900-950 955-963 966-97F A8E0-A8FF 11B00-11B09" ]),
    ("thai",
      [ "E01-E3A E40-E5B" ]),
    ("hangul",
      [ "1100-11FF 302E-302F 3131-318E 3200-321E 3260-327E A960-A97C AC00-D7A3 D7B0-D7C6",
        "D7CB-D7FB FFA0-FFBE FFC2-FFC7 FFCA-FFCF FFD2-FFD7 FFDA-FFDC" ]),
    ("hiragana",
      [ "3041-3096 309D-309F 1B001-1B11F 1B132 1B150-1B152 1F200" ]),
    ("katakana",
      [ "30A1-30FA 30FD-30FF 31F0-31FF 32D0-32FE 3300-3357 FF66-FF6F FF71-FF9D 1AFF0-1AFF3",
        "1AFF5-1AFFB 1AFFD-1AFFE 1B000 1B120-1B122 1B155 1B164-1B167" ]),
    ("han",
      [ "2E80-2E99 2E9B-2EF3 2F00-2FD5 3005 3007 3021-3029 3038-303B 3400-4DBF 4E00-9FFF",
        "F900-FA6D FA70-FAD9 16FE2-16FE3 16FF0-16FF1 20000-2A6DF 2A700-2B739 2B740-2B81D",
        "2B820-2CEA1 2CEB0-2EBE0 2F800-2FA1D 30000-3134A 31350-323AF" ]) ]

def script? (name : String) : Option CharSet :=
  (Entries.get? name scriptText).map fun rows => .ofTable (.ofText rows)

/-- The characters of a general category, or of one of the groups of all, of assigned and of ASCII
characters. -/
def category? (name : String) : Option CharSet :=
  match name with
  | "any" => some .full
  | "ascii" => some ⟨[(0, 127)]⟩
  | "assigned" => some (ofCategories ["Cn"]).complement
  | name => (categories? name).map ofCategories

/-- Small letters in the wide sense that are no letters of the category of small letters. -/
def otherLowercaseText : List String :=
  [ "AA BA 2B0-2B8 2C0-2C1 2E0-2E4 345 37A 10FC 1D2C-1D6A 1D78 1D9B-1DBF 2071 207F 2090-209C",
    "2170-217F 24D0-24E9 2C7C-2C7D A69C-A69D A770 A7F2-A7F4 A7F8-A7F9 AB5C-AB5F AB69 10780",
    "10783-10785 10787-107B0 107B2-107BA 1E030-1E06D" ]

/-- Capitals in the wide sense that are no letters of the category of capitals. -/
def otherUppercaseText : List String :=
  [ "2160-216F 24B6-24CF 1F130-1F149 1F150-1F169 1F170-1F189" ]

/-- The characters of a property that holds or does not. -/
def binaryProperty? (name : String) : Option CharSet :=
  match name with
  | "alphabetic" | "alpha" =>
    some ((CharSet.mk [(65, 90), (97, 122)]).union (.ofTable Text.alphabeticRanges))
  | "lowercase" | "lower" =>
    some ((ofCategories ["Ll"]).union (.ofTable (.ofText otherLowercaseText)))
  | "uppercase" | "upper" =>
    some ((ofCategories ["Lu"]).union (.ofTable (.ofText otherUppercaseText)))
  | "whitespace" | "wspace" | "space" => some Short.spaceSet
  | _ => none

/-- The name of a property without blanks and marks between its words, in lower case. A leading
`is` is dropped. -/
def propertyName (name : String) : String :=
  let kept := name.toList.filter fun c => !Text.isBlank c && c != '_' && c != '-'
  let chars := kept.map Char.toLower
  String.ofList <| match chars with
    | ['i', 's', 'c'] => chars
    | 'i' :: 's' :: rest => rest
    | chars => chars

def property? (name : String) : Option CharSet :=
  let name := propertyName name
  if name = "cf" ∨ name = "sc" ∨ name = "lc" then category? name
  else (binaryProperty? name).or <| (category? name).or (script? name)

def propertyValue? (name value : String) : Option CharSet :=
  match propertyName name with
  | "gc" | "generalcategory" => category? (propertyName value)
  | "sc" | "script" => script? (propertyName value)
  | _ => none

end Remap.Pattern
