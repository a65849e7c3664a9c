import PromptBlocks.Grammar.Finding

/-!
Contract: the wording of findings in the display language.

Owns: message, suggestion and button label of every finding code in both languages.

Does not own: what is found, where, and how it is fixed.
-/

namespace PromptBlocks.Grammar

structure Wording where
  message : String
  suggestion : Option String
  /-- The label of the fix button; empty where the code has no fix. -/
  label : String
  deriving DecidableEq, Repr

/-- The wording of three texts; an empty suggestion is none. -/
def Wording.ofTexts (message suggestion label : String) : Wording :=
  { message, suggestion := if suggestion.isEmpty then none else some suggestion, label }

def japaneseWording (subject : String) : FindingCode → Wording
  | .particleWithoutNoun =>
    .ofTexts ("助詞「" ++ subject ++ "」の前に名詞がありません") "名詞ブロックを追加してください" "名詞を追加"
  | .consecutiveParticles =>
    .ofTexts ("助詞「" ++ subject ++ "」が連続しています") "間に名詞や動詞を追加してください" "名詞を追加"
  | .verbNotAtEnd =>
    .ofTexts "動詞が末尾にありません" "動詞を文末に移動してください" ""
  | .consecutiveNouns =>
    .ofTexts "名詞が連続しています" "間に助詞を追加することを検討してください" "「と」を追加"
  | .missingSubject =>
    .ofTexts "主語がありません（「が」がありません）" "「名詞 が」を追加してください" "「が」を追加"
  | .missingObject =>
    .ofTexts "目的語がありません（「を」がありません）" "「名詞 を」を追加してください" "「を」を追加"
  | .articleNotBeforeNoun =>
    .ofTexts "冠詞の後に名詞がありません" "冠詞の後に名詞ブロックを追加してください" "名詞を追加"
  | .consecutiveArticles =>
    .ofTexts "冠詞が連続しています" "どちらかの冠詞を削除してください" ""
  | .prepositionWithoutObject =>
    .ofTexts ("前置詞「" ++ subject ++ "」の後に名詞がありません") "前置詞の後に名詞ブロックを追加してください" "名詞を追加"
  | .pleasePosition =>
    .ofTexts "「please」は文頭または動詞の前に置いてください" "「please」を移動してください" ""
  | .periodNotAtEnd =>
    .ofTexts "ピリオドは文末に置いてください" "句読点を文末に移動してください" ""
  | .missingVerb =>
    .ofTexts "文に動詞がありません" "動詞ブロックを追加してください" ""

def englishWording (subject : String) : FindingCode → Wording
  | .particleWithoutNoun =>
    .ofTexts ("Particle \"" ++ subject ++ "\" has no noun before it")
      "Add a noun block before the particle" "Add noun"
  | .consecutiveParticles =>
    .ofTexts ("Particle \"" ++ subject ++ "\" follows another particle")
      "Add a noun or verb between the particles" "Add noun"
  | .verbNotAtEnd =>
    .ofTexts "Verb is not at the end" "Move the verb to the end of the sentence" ""
  | .consecutiveNouns =>
    .ofTexts "Consecutive nouns" "Consider adding a particle between the nouns" "Add \"と\""
  | .missingSubject =>
    .ofTexts "No subject (missing \"が\")" "Add \"noun が\"" "Add \"が\""
  | .missingObject =>
    .ofTexts "No object (missing \"を\")" "Add \"noun を\"" "Add \"を\""
  | .articleNotBeforeNoun =>
    .ofTexts "Article must be followed by a noun" "Add a noun after the article" "Add noun"
  | .consecutiveArticles =>
    .ofTexts "Consecutive articles not allowed" "Remove one of the articles" ""
  | .prepositionWithoutObject =>
    .ofTexts ("Preposition \"" ++ subject ++ "\" must be followed by a noun")
      "Add a noun after the preposition" "Add noun"
  | .pleasePosition =>
    .ofTexts "\"please\" should be at start or before verb"
      "Move \"please\" to the start or before the verb" ""
  | .periodNotAtEnd =>
    .ofTexts "Period should be at end of sentence" "Move the punctuation to the end" ""
  | .missingVerb =>
    .ofTexts "Sentence has no verb (action)" "Add a verb block" ""

def wording (display : Locale) (subject : String) (code : FindingCode) : Wording :=
  match display with
  | .ja => japaneseWording subject code
  | .en => englishWording subject code

def findingOf (display : Locale) (note : Note) : Finding :=
  let text := wording display note.subject note.code
  { code := note.code
    message := text.message
    position := note.position
    severity := note.severity
    suggestion := text.suggestion
    fix := note.remedy.map fun remedy => remedy.toFix text.label }

end PromptBlocks.Grammar
