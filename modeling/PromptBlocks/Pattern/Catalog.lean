import PromptBlocks.Pattern.Template

/-!
Contract: ordered catalogs of templates.

Owns:
- the conditions on a catalog and the fault that a list of templates has;
- look-up by id;
- the built-in catalog in both languages.

Does not own: catalog files.
-/

namespace PromptBlocks

/-- Templates in their declared order, which ranks equal scores. -/
structure Catalog where
  templates : List Template
  deriving DecidableEq, Repr

inductive CatalogFault
  | noTemplates
  | noSlots (id : String)
  | duplicateId (id : String)
  deriving DecidableEq, Repr

def CatalogFault.message : CatalogFault → String
  | .noTemplates => "Pattern catalog is empty"
  | .noSlots id => "Pattern '" ++ id ++ "' has no blocks"
  | .duplicateId id => "Duplicate pattern id: " ++ id

namespace Catalog

/-- The fault of the first template that has one, when the ids in `seen` come before it. -/
def fault? (seen : List String) : List Template → Option CatalogFault
  | [] => none
  | template :: later =>
    if template.slots.isEmpty then some (.noSlots template.id)
    else if seen.contains template.id then some (.duplicateId template.id)
    else fault? (template.id :: seen) later

/-- The catalog of the templates: at least one, each with slots, ids distinct. -/
def ofTemplates (templates : List Template) : Except CatalogFault Catalog :=
  if templates.isEmpty then .error .noTemplates
  else
    match fault? [] templates with
    | some fault => .error fault
    | none => .ok ⟨templates⟩

def get? (catalog : Catalog) (id : String) : Option Template :=
  catalog.templates.find? fun template => template.id == id

end Catalog

/-- One display text in both languages. -/
structure Bilingual where
  ja : String
  en : String

def Bilingual.choose (text : Bilingual) : Locale → String
  | .ja => text.ja
  | .en => text.en

namespace Catalog.Builtin

def noun (locale : Locale) (ja en : String) : Slot :=
  { block := .noun, label := Bilingual.choose ⟨ja, en⟩ locale, isPlaceholder := true,
    preset := none }

def verb (locale : Locale) (word : Verb) : Slot :=
  { block := .verb word, label := Bilingual.choose ⟨"動詞", "Verb"⟩ locale, isPlaceholder := true,
    preset := none }

/-- A fixed particle, labelled by its Japanese surface. -/
def particle (word : Particle) : Slot :=
  { block := .particle word, label := word.surface .ja, isPlaceholder := false, preset := none }

def article (word : Article) : Slot :=
  { block := .article word, label := word.surface, isPlaceholder := false, preset := none }

/-- The built-in templates; only display texts depend on the language. -/
def templates (locale : Locale) : List Template :=
  let say := fun ja en => Bilingual.choose ⟨ja, en⟩ locale
  [ { id := "sov_basic"
      name := say "基本文型（主語-目的語-動詞）" "Basic sentence (subject-object-verb)"
      description := say "「誰が何をどうする」の基本形" "Who does what: the basic form"
      outline := say "名詞 が 名詞 を 動詞" "Noun が Noun を Verb"
      sample := say "ユーザー が ドキュメント を 分析して" "User が Document を analyze"
      slots :=
        [noun locale "主語" "Subject", particle .ga, noun locale "目的語" "Object", particle .wo,
          verb locale .analyze] },
    { id := "ov_simple"
      name := say "目的語-動詞文型" "Object-verb sentence"
      description := say "「何をどうする」のシンプル形" "What to do: the short form"
      outline := say "名詞 を 動詞" "Noun を Verb"
      sample := say "ドキュメント を 要約して" "Document を summarize"
      slots := [noun locale "目的語" "Object", particle .wo, verb locale .summarize] },
    { id := "topic_about"
      name := say "トピック文型（について）" "Topic sentence (について)"
      description := say "「〇〇について」でトピックを指定" "Name a topic with について"
      outline := say "名詞 について 動詞" "Noun について Verb"
      sample := say "データ について 分析して" "Data について analyze"
      slots :=
        [noun locale "トピック" "Topic",
          { block := .other, label := "について", isPlaceholder := false,
            preset := some "について" },
          verb locale .analyze] },
    { id := "means_de"
      name := say "手段・場所文型（で）" "Means or place (で)"
      description := say "「〇〇で」で手段や場所を指定" "Name a means or place with で"
      outline := say "名詞 で 名詞 を 動詞" "Noun で Noun を Verb"
      sample := say "日本語 で メール を 翻訳して" "Japanese で Email を translate"
      slots :=
        [noun locale "手段/場所" "Means/Place", particle .de, noun locale "目的語" "Object",
          particle .wo, verb locale .translate] },
    { id := "parallel_to"
      name := say "並列文型（と）" "Parallel objects (と)"
      description := say "「AとBを」で複数の対象を指定" "Name several targets with AとBを"
      outline := say "名詞 と 名詞 を 動詞" "Noun と Noun を Verb"
      sample := say "データ と 結果 を 保存して" "Data と Results を save"
      slots :=
        [noun locale "対象1" "Target 1", particle .to, noun locale "対象2" "Target 2",
          particle .wo,
          { block := .customVerb, label := say "動詞" "Verb", isPlaceholder := false,
            preset := some (say "保存して" "save") }] },
    { id := "source_dest"
      name := say "起点-終点文型（から...に）" "Source to destination (から...に)"
      description := say "「どこからどこへ」の移動・変換" "Move or convert from one place to another"
      outline := say "名詞 から 名詞 に 動詞" "Noun から Noun に Verb"
      sample := say "英語 から 日本語 に 翻訳して" "English から Japanese に translate"
      slots :=
        [noun locale "起点" "Source", particle .kara, noun locale "終点" "Destination",
          particle .ni, verb locale .translate] },
    { id := "osv_emphasis"
      name := say "目的語先行文型（を...が）" "Object first (を...が)"
      description := say "目的語を先に述べて強調する形" "Put the object first for emphasis"
      outline := say "名詞 を 名詞 が 動詞" "Noun を Noun が Verb"
      sample := say "ドキュメント を ユーザー が 分析して" "Document を User が analyze"
      slots :=
        [noun locale "目的語" "Object", particle .wo, noun locale "主語" "Subject", particle .ga,
          verb locale .analyze] },
    { id := "please_request"
      name := say "丁寧な依頼（please）" "Polite request (please)"
      description := say "「please + 動詞 + the + 名詞」の依頼形" "Ask politely for an action on an object"
      outline := say "please 動詞 the 名詞" "please Verb the Noun"
      sample := "please explain the code"
      slots :=
        [article .please, verb locale .explain, article .definite,
          noun locale "目的語" "Object"] },
    { id := "imperative_object"
      name := say "命令文（動詞-目的語）" "Imperative (verb-object)"
      description := say "動詞で始まる英語の命令形" "An English command starting with the verb"
      outline := say "動詞 the 名詞" "Verb the Noun"
      sample := "summarize the report"
      slots := [verb locale .summarize, article .definite, noun locale "目的語" "Object"] } ]

end Catalog.Builtin

/-- The built-in catalog with display texts in a language. -/
def Catalog.builtin (locale : Locale) : Catalog :=
  ⟨Catalog.Builtin.templates locale⟩

end PromptBlocks
