import PromptBlocks.Vocabulary.Locale

/-!
Contract: the fixed words of the vocabulary.

Owns:
- particles, articles, verbs and punctuation marks with their ids and surfaces;
- the reading of a surface in either language.

Does not own: free text (nouns, custom verbs, other words) and block ids.
-/

namespace PromptBlocks

/-- The Japanese case particles, with their English connectors. -/
inductive Particle
  | ga | wo | ni | de | to | he | kara | made | yori
  deriving DecidableEq, Repr

namespace Particle

instance : Enumerated Particle where
  all := [.ga, .wo, .ni, .de, .to, .he, .kara, .made, .yori]
  id
    | .ga => "ga"
    | .wo => "wo"
    | .ni => "ni"
    | .de => "de"
    | .to => "to"
    | .he => "he"
    | .kara => "kara"
    | .made => "made"
    | .yori => "yori"

def kana : Particle → String
  | .ga => "が"
  | .wo => "を"
  | .ni => "に"
  | .de => "で"
  | .to => "と"
  | .he => "へ"
  | .kara => "から"
  | .made => "まで"
  | .yori => "より"

/-- The English surface; the subject and object markers are silent. -/
def connector : Particle → String
  | .ga => ""
  | .wo => ""
  | .ni => "to"
  | .de => "with"
  | .to => "and"
  | .he => "toward"
  | .kara => "from"
  | .made => "until"
  | .yori => "than"

def surface (particle : Particle) : Locale → String
  | .ja => particle.kana
  | .en => particle.connector

/-- Every particle but the subject and object markers stands for an English preposition or
conjunction. -/
def isPreposition : Particle → Bool
  | .ga => false
  | .wo => false
  | _ => true

/-- The particle with the given surface in either language. -/
def ofSurface? (text : String) : Option Particle :=
  (Enumerated.all : List Particle).find? fun particle =>
    particle.kana == text || (particle.isPreposition && particle.connector == text)

end Particle

/-- The English articles, demonstratives and the politeness marker. -/
inductive Article
  /-- "a" -/
  | indefinite
  /-- "an" -/
  | indefiniteVowel
  /-- "the" -/
  | definite
  /-- "this" -/
  | proximal
  /-- "that" -/
  | distal
  /-- "please" -/
  | please
  deriving DecidableEq, Repr

namespace Article

/-- An article is written the same way in both languages, and that is its id. -/
def surface : Article → String
  | .indefinite => "a"
  | .indefiniteVowel => "an"
  | .definite => "the"
  | .proximal => "this"
  | .distal => "that"
  | .please => "please"

instance : Enumerated Article where
  all := [.indefinite, .indefiniteVowel, .definite, .proximal, .distal, .please]
  id := surface

/-- Every article but the politeness marker introduces a noun phrase. -/
def isDeterminer : Article → Bool
  | .please => false
  | _ => true

def ofSurface? (text : String) : Option Article :=
  Enumerated.ofId? text

end Article

inductive Verb
  | analyze | summarize | translate | create | generate | convert
  | delete | update | extract | explain | describe | teach
  deriving DecidableEq, Repr

namespace Verb

/-- The English surface, which is also the id. -/
def english : Verb → String
  | .analyze => "analyze"
  | .summarize => "summarize"
  | .translate => "translate"
  | .create => "create"
  | .generate => "generate"
  | .convert => "convert"
  | .delete => "delete"
  | .update => "update"
  | .extract => "extract"
  | .explain => "explain"
  | .describe => "describe"
  | .teach => "teach"

def japanese : Verb → String
  | .analyze => "分析して"
  | .summarize => "要約して"
  | .translate => "翻訳して"
  | .create => "作成して"
  | .generate => "生成して"
  | .convert => "変換して"
  | .delete => "削除して"
  | .update => "更新して"
  | .extract => "抽出して"
  | .explain => "説明して"
  | .describe => "解説して"
  | .teach => "教えて"

instance : Enumerated Verb where
  all := [.analyze, .summarize, .translate, .create, .generate, .convert,
    .delete, .update, .extract, .explain, .describe, .teach]
  id := english

def surface (verb : Verb) : Locale → String
  | .ja => verb.japanese
  | .en => verb.english

/-- The verb with the given surface in either language. -/
def ofSurface? (text : String) : Option Verb :=
  (Enumerated.all : List Verb).find? fun verb => verb.japanese == text || verb.english == text

end Verb

inductive Punctuation
  | touten | kuten | exclaim | question | doubleQuote | singleQuote
  | comma | slash | ampersand | period
  deriving DecidableEq, Repr

namespace Punctuation

instance : Enumerated Punctuation where
  all := [.touten, .kuten, .exclaim, .question, .doubleQuote, .singleQuote,
    .comma, .slash, .ampersand, .period]
  id
    | .touten => "touten"
    | .kuten => "kuten"
    | .exclaim => "exclaim"
    | .question => "question"
    | .doubleQuote => "dquote"
    | .singleQuote => "squote"
    | .comma => "comma"
    | .slash => "slash"
    | .ampersand => "amp"
    | .period => "period"

/-- The Japanese surface: the first four marks are full width. -/
def wide : Punctuation → String
  | .touten => "、"
  | .kuten => "。"
  | .exclaim => "！"
  | .question => "？"
  | .doubleQuote => "\""
  | .singleQuote => "'"
  | .comma => ","
  | .slash => "/"
  | .ampersand => "&"
  | .period => "."

/-- The English surface: ASCII throughout, so touten and comma agree, and kuten and period. -/
def ascii : Punctuation → String
  | .touten => ","
  | .kuten => "."
  | .exclaim => "!"
  | .question => "?"
  | .doubleQuote => "\""
  | .singleQuote => "'"
  | .comma => ","
  | .slash => "/"
  | .ampersand => "&"
  | .period => "."

def surface (mark : Punctuation) : Locale → String
  | .ja => mark.wide
  | .en => mark.ascii

def isTerminal : Punctuation → Bool
  | .kuten | .exclaim | .question | .period => true
  | _ => false

/-- The mark with the given surface in either width; where two share an ASCII form, the one that
has no wide form is meant. -/
def ofSurface? (text : String) : Option Punctuation :=
  match text with
  | "、" => some .touten
  | "。" => some .kuten
  | "！" | "!" => some .exclaim
  | "？" | "?" => some .question
  | "\"" => some .doubleQuote
  | "'" => some .singleQuote
  | "," => some .comma
  | "/" => some .slash
  | "&" => some .ampersand
  | "." => some .period
  | _ => none

theorem ofSurface?_wide (mark : Punctuation) : ofSurface? mark.wide = some mark := by
  cases mark <;> rfl

/-- What is read from an ASCII form is a mark with that form. -/
theorem map_ascii_ofSurface?_ascii (mark : Punctuation) :
    (ofSurface? mark.ascii).map ascii = some mark.ascii := by
  cases mark <;> rfl

/-- Surfaces are read through both columns: the wide forms first, and then the ASCII forms. -/
theorem ofSurface?_eq_or (text : String) :
    ofSurface? text =
      ((Enumerated.all : List Punctuation).find? fun mark => mark.wide == text).or
        ((Enumerated.all : List Punctuation).find? fun mark => mark.ascii == text) := by
  unfold ofSurface?
  split
  case h_13 =>
    -- A text outside the table is the surface of no mark in either column.
    symm
    refine Option.or_eq_none_iff.mpr ⟨?_, ?_⟩
    · refine List.find?_eq_none.mpr fun mark _ claimed => ?_
      cases mark <;> simp_all [wide]
    · refine List.find?_eq_none.mpr fun mark _ claimed => ?_
      cases mark <;> simp_all [ascii]
  all_goals rfl

end Punctuation

end PromptBlocks
