import TrustSchema.Regex.NamedSets
import TrustSchema.Regex.Property

/-!
The properties of the Unicode character database, restricted to the characters that matter to a
match on ASCII: those of ASCII and the two that fold to them. Only white space and decimal digits
are complete. Names are in the form in which they are compared.
-/

namespace TrustSchema.Regex

/-- Sets by their names: code points as inclusive ranges, and the names of sets that hold none of
the characters that matter. -/
structure NamedRanges where
  members : List (List String × List (Nat × Nat))
  empty : List String

/-- The set with a name. -/
def NamedRanges.find? (table : NamedRanges) (key : Text) : Option CharSet :=
  match table.members.find? fun entry => entry.1.any fun name => name.toList = key with
  | some entry => some (.ofCodePoints entry.2)
  | none => if table.empty.any fun name => name.toList = key then some .empty else none

/-- Properties that a character has or has not. -/
def binaryProperties : NamedRanges where
  members :=
    [(["alpha", "alphabetic"], [(0x41, 0x5A), (0x61, 0x7A), (0x17F, 0x17F), (0x212A, 0x212A)]),
     (["ahex", "asciihexdigit"], [(0x30, 0x39), (0x41, 0x46), (0x61, 0x66)]),
     (["ci", "caseignorable"], [(0x27, 0x27), (0x2E, 0x2E), (0x3A, 0x3A), (0x5E, 0x5E),
       (0x60, 0x60)]), (["cased"], [(0x41, 0x5A), (0x61, 0x7A), (0x17F, 0x17F), (0x212A, 0x212A)]),
     (["cwcf", "changeswhencasefolded"], [(0x41, 0x5A), (0x17F, 0x17F), (0x212A, 0x212A)]),
     (["cwcm", "changeswhencasemapped"], [(0x41, 0x5A), (0x61, 0x7A), (0x17F, 0x17F),
       (0x212A, 0x212A)]), (["cwl", "changeswhenlowercased"], [(0x41, 0x5A), (0x212A, 0x212A)]),
     (["cwt", "changeswhentitlecased"], [(0x61, 0x7A), (0x17F, 0x17F)]),
     (["cwu", "changeswhenuppercased"], [(0x61, 0x7A), (0x17F, 0x17F)]), (["dash"], [(0x2D, 0x2D)]),
     (["dia", "diacritic"], [(0x5E, 0x5E), (0x60, 0x60)]),
     (["emoji"], [(0x23, 0x23), (0x2A, 0x2A), (0x30, 0x39)]),
     (["ecomp", "emojicomponent"], [(0x23, 0x23), (0x2A, 0x2A), (0x30, 0x39)]),
     (["grbase", "graphemebase"], [(0x20, 0x7E), (0x17F, 0x17F), (0x212A, 0x212A)]),
     (["hex", "hexdigit"], [(0x30, 0x39), (0x41, 0x46), (0x61, 0x66)]),
     (["idc", "idcontinue"], [(0x30, 0x39), (0x41, 0x5A), (0x5F, 0x5F), (0x61, 0x7A),
       (0x17F, 0x17F), (0x212A, 0x212A)]),
     (["ids", "idstart"], [(0x41, 0x5A), (0x61, 0x7A), (0x17F, 0x17F), (0x212A, 0x212A)]),
     (["lower", "lowercase"], [(0x61, 0x7A), (0x17F, 0x17F)]),
     (["math"], [(0x2B, 0x2B), (0x3C, 0x3E), (0x5E, 0x5E), (0x7C, 0x7C), (0x7E, 0x7E)]),
     (["patsyn", "patternsyntax"], [(0x21, 0x2F), (0x3A, 0x40), (0x5B, 0x5E), (0x60, 0x60),
       (0x7B, 0x7E)]), (["patws", "patternwhitespace"], [(0x9, 0xD), (0x20, 0x20)]),
     (["qmark", "quotationmark"], [(0x22, 0x22), (0x27, 0x27)]),
     (["sterm", "sentenceterminal"], [(0x21, 0x21), (0x2E, 0x2E), (0x3F, 0x3F)]),
     (["sd", "softdotted"], [(0x69, 0x6A)]),
     (["term", "terminalpunctuation"], [(0x21, 0x21), (0x2C, 0x2C), (0x2E, 0x2E), (0x3A, 0x3B),
       (0x3F, 0x3F)]), (["upper", "uppercase"], [(0x41, 0x5A), (0x212A, 0x212A)]),
     (["wspace", "whitespace", "space"], Text.blankRanges),
     (["xidc", "xidcontinue"], [(0x30, 0x39), (0x41, 0x5A), (0x5F, 0x5F), (0x61, 0x7A),
       (0x17F, 0x17F), (0x212A, 0x212A)]),
     (["xids", "xidstart"], [(0x41, 0x5A), (0x61, 0x7A), (0x17F, 0x17F), (0x212A, 0x212A)])]
  empty :=
    ["bidic", "bidicontrol", "di", "defaultignorablecodepoint", "dep", "deprecated", "emod",
     "emojimodifier", "ebase", "emojimodifierbase", "epres", "emojipresentation", "extpict",
     "extendedpictographic", "ext", "extender", "grext", "graphemeextend", "ideo", "ideographic",
     "idsb", "idsbinaryoperator", "idst", "idstrinaryoperator", "joinc", "joincontrol", "loe",
     "logicalorderexception", "nchar", "noncharactercodepoint", "pcm", "prependedconcatenationmark",
     "radical", "ri", "regionalindicator", "uideo", "unifiedideograph", "vs", "variationselector",
     "idcompatmathcontinue", "idcompatmathstart", "idsu", "idsunaryoperator", "mcm",
     "modifiercombiningmark"]

/-- The values of the general category, and the sets that are named like them. -/
def generalCategories : NamedRanges where
  members :=
    [(["any"], [(0x0, 0x10FFFF)]), (["ascii"], [(0x0, 0x7F)]),
     (["assigned"], [(0x0, 0x7F), (0x17F, 0x17F), (0x212A, 0x212A)]),
     (["c", "other"], [(0x0, 0x1F), (0x7F, 0x7F)]),
     (["cc", "control", "cntrl"], [(0x0, 0x1F), (0x7F, 0x7F)]),
     (["l", "letter"], [(0x41, 0x5A), (0x61, 0x7A), (0x17F, 0x17F), (0x212A, 0x212A)]),
     (["lc", "casedletter"], [(0x41, 0x5A), (0x61, 0x7A), (0x17F, 0x17F), (0x212A, 0x212A)]),
     (["ll", "lowercaseletter"], [(0x61, 0x7A), (0x17F, 0x17F)]),
     (["lu", "uppercaseletter"], [(0x41, 0x5A), (0x212A, 0x212A)]),
     (["n", "number"], [(0x30, 0x39)]), (["nd", "decimalnumber", "digit"], digitRanges),
     (["p", "punctuation", "punct"], [(0x21, 0x23), (0x25, 0x2A), (0x2C, 0x2F), (0x3A, 0x3B),
       (0x3F, 0x40), (0x5B, 0x5D), (0x5F, 0x5F), (0x7B, 0x7B), (0x7D, 0x7D)]),
     (["pc", "connectorpunctuation"], [(0x5F, 0x5F)]), (["pd", "dashpunctuation"], [(0x2D, 0x2D)]),
     (["pe", "closepunctuation"], [(0x29, 0x29), (0x5D, 0x5D), (0x7D, 0x7D)]),
     (["po", "otherpunctuation"], [(0x21, 0x23), (0x25, 0x27), (0x2A, 0x2A), (0x2C, 0x2C),
       (0x2E, 0x2F), (0x3A, 0x3B), (0x3F, 0x40), (0x5C, 0x5C)]),
     (["ps", "openpunctuation"], [(0x28, 0x28), (0x5B, 0x5B), (0x7B, 0x7B)]),
     (["s", "symbol"], [(0x24, 0x24), (0x2B, 0x2B), (0x3C, 0x3E), (0x5E, 0x5E), (0x60, 0x60),
       (0x7C, 0x7C), (0x7E, 0x7E)]), (["sc", "currencysymbol"], [(0x24, 0x24)]),
     (["sk", "modifiersymbol"], [(0x5E, 0x5E), (0x60, 0x60)]),
     (["sm", "mathsymbol"], [(0x2B, 0x2B), (0x3C, 0x3E), (0x7C, 0x7C), (0x7E, 0x7E)]),
     (["z", "separator"], [(0x20, 0x20)]), (["zs", "spaceseparator"], [(0x20, 0x20)])]
  empty :=
    ["cf", "format", "cn", "unassigned", "co", "privateuse", "cs", "surrogate", "lm",
     "modifierletter", "lo", "otherletter", "lt", "titlecaseletter", "m", "mark", "combiningmark",
     "mc", "spacingmark", "me", "enclosingmark", "mn", "nonspacingmark", "nl", "letternumber", "no",
     "othernumber", "pf", "finalpunctuation", "pi", "initialpunctuation", "so", "othersymbol", "zl",
     "lineseparator", "zp", "paragraphseparator"]

/-- The scripts. -/
def scripts : NamedRanges where
  members :=
    [(["latn", "latin"], [(0x41, 0x5A), (0x61, 0x7A), (0x17F, 0x17F), (0x212A, 0x212A)]),
     (["zyyy", "common"], [(0x0, 0x40), (0x5B, 0x60), (0x7B, 0x7F)])]
  empty :=
    ["adlm", "adlam", "aghb", "caucasianalbanian", "ahom", "arab", "arabic", "armi",
     "imperialaramaic", "armn", "armenian", "avst", "avestan", "bali", "balinese", "bamu", "bamum",
     "bass", "bassavah", "batk", "batak", "beng", "bengali", "bhks", "bhaiksuki", "bopo",
     "bopomofo", "brah", "brahmi", "brai", "braille", "bugi", "buginese", "buhd", "buhid", "cakm",
     "chakma", "cans", "canadianaboriginal", "cari", "carian", "cham", "cher", "cherokee", "chrs",
     "chorasmian", "copt", "coptic", "qaac", "cpmn", "cyprominoan", "cprt", "cypriot", "cyrl",
     "cyrillic", "deva", "devanagari", "diak", "divesakuru", "dogr", "dogra", "dsrt", "deseret",
     "dupl", "duployan", "egyp", "egyptianhieroglyphs", "elba", "elbasan", "elym", "elymaic",
     "ethi", "ethiopic", "gara", "garay", "geor", "georgian", "glag", "glagolitic", "gong",
     "gunjalagondi", "gonm", "masaramgondi", "goth", "gothic", "gran", "grantha", "grek", "greek",
     "gujr", "gujarati", "gukh", "gurungkhema", "guru", "gurmukhi", "hang", "hangul", "hani", "han",
     "hano", "hanunoo", "hatr", "hatran", "hebr", "hebrew", "hira", "hiragana", "hluw",
     "anatolianhieroglyphs", "hmng", "pahawhhmong", "hmnp", "nyiakengpuachuehmong", "hung",
     "oldhungarian", "ital", "olditalic", "java", "javanese", "kali", "kayahli", "kana", "katakana",
     "kawi", "khar", "kharoshthi", "khmr", "khmer", "khoj", "khojki", "kits", "khitansmallscript",
     "knda", "kannada", "krai", "kiratrai", "kthi", "kaithi", "lana", "taitham", "laoo", "lao",
     "lepc", "lepcha", "limb", "limbu", "lina", "lineara", "linb", "linearb", "lisu", "lyci",
     "lycian", "lydi", "lydian", "mahj", "mahajani", "maka", "makasar", "mand", "mandaic", "mani",
     "manichaean", "marc", "marchen", "medf", "medefaidrin", "mend", "mendekikakui", "merc",
     "meroiticcursive", "mero", "meroitichieroglyphs", "mlym", "malayalam", "modi", "mong",
     "mongolian", "mroo", "mro", "mtei", "meeteimayek", "mult", "multani", "mymr", "myanmar",
     "nagm", "nagmundari", "nand", "nandinagari", "narb", "oldnortharabian", "nbat", "nabataean",
     "newa", "nkoo", "nko", "nshu", "nushu", "ogam", "ogham", "olck", "olchiki", "onao", "olonal",
     "orkh", "oldturkic", "orya", "oriya", "osge", "osage", "osma", "osmanya", "ougr", "olduyghur",
     "palm", "palmyrene", "pauc", "paucinhau", "perm", "oldpermic", "phag", "phagspa", "phli",
     "inscriptionalpahlavi", "phlp", "psalterpahlavi", "phnx", "phoenician", "plrd", "miao", "prti",
     "inscriptionalparthian", "rjng", "rejang", "rohg", "hanifirohingya", "runr", "runic", "samr",
     "samaritan", "sarb", "oldsoutharabian", "saur", "saurashtra", "sgnw", "signwriting", "shaw",
     "shavian", "shrd", "sharada", "sidd", "siddham", "sind", "khudawadi", "sinh", "sinhala",
     "sogd", "sogdian", "sogo", "oldsogdian", "sora", "sorasompeng", "soyo", "soyombo", "sund",
     "sundanese", "sunu", "sunuwar", "sylo", "sylotinagri", "syrc", "syriac", "tagb", "tagbanwa",
     "takr", "takri", "tale", "taile", "talu", "newtailue", "taml", "tamil", "tang", "tangut",
     "tavt", "taiviet", "telu", "telugu", "tfng", "tifinagh", "tglg", "tagalog", "thaa", "thaana",
     "thai", "tibt", "tibetan", "tirh", "tirhuta", "tnsa", "tangsa", "todr", "todhri", "toto",
     "tutg", "tulutigalari", "ugar", "ugaritic", "vaii", "vai", "vith", "vithkuqi", "wara",
     "warangciti", "wcho", "wancho", "xpeo", "oldpersian", "xsux", "cuneiform", "yezi", "yezidi",
     "yiii", "yi", "zanb", "zanabazarsquare", "zinh", "inherited", "qaai"]

/-- The names of the property whose values are the general categories. -/
def categoryNames : List String := ["gc", "generalcategory", "category"]

/-- The names of the properties whose values are scripts. -/
def scriptNames : List String := ["sc", "script", "scx", "scriptextensions"]

/-- The properties of the character database as far as they are kept here. The ages of characters
and the properties that part texts into words and sentences are not among them. -/
instance : PropertyTable where
  members?
    | .named name =>
      let key := propertyKey name
      (binaryProperties.find? key).or ((generalCategories.find? key).or (scripts.find? key))
    | .valued property value =>
      let key := propertyKey value
      if categoryNames.contains (String.ofList (propertyKey property)) then
        generalCategories.find? key
      else if scriptNames.contains (String.ofList (propertyKey property)) then scripts.find? key
      else none

end TrustSchema.Regex
