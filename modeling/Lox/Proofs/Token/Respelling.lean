import Lox.Proofs.Token.Stretches

/-!
Scanning as the inverse of spelling. Each kind of tokens has its spellings, which no scan is needed to tell. Words
that are spelled so, with blanks and comments between them, are found again one by one: no blank can go on with a
token, so the longest piece that starts where a word starts is that word.
-/
namespace Lox

/-- A token without its place. -/
structure Spelling where
  kind : TokenKind
  lexeme : String
  literal : Option Literal

def Token.spelling (token : Token) : Spelling := ⟨token.kind, token.lexeme, token.literal⟩

open Number (isDigit)
open Scan (isLetter isWord)

/-- How tokens may be spelled, and what they denote. Signs and reserved words have one spelling each. -/
inductive Spelling.Legal : Spelling → Prop
  | fixed {kind : TokenKind} {text : String} (only : kind.text? = some text) : Legal ⟨kind, text, none⟩
  | name {first : Char} {rest : List Char} (letter : isLetter first = true) (word : ∀ char ∈ rest, isWord char = true)
      (free : String.ofList (first :: rest) ∉ TokenKind.keywords.map Prod.fst) :
      Legal ⟨.identifier, String.ofList (first :: rest), none⟩
  | whole {first : Char} {rest : List Char} (digits : ∀ char ∈ first :: rest, isDigit char = true) :
      Legal ⟨.number, String.ofList (first :: rest), some (.number (Number.read (first :: rest)))⟩
  | decimal {first next : Char} {rest places : List Char} (digits : ∀ char ∈ first :: rest, isDigit char = true)
      (digits' : ∀ char ∈ next :: places, isDigit char = true) :
      Legal ⟨.number, String.ofList (first :: (rest ++ '.' :: next :: places)),
        some (.number (Number.read (first :: (rest ++ '.' :: next :: places))))⟩
  | string {body : List Char} (closed : '"' ∉ body) :
      Legal ⟨.string, String.ofList ('"' :: (body ++ ['"'])), some (.string (String.ofList body))⟩

/-- Blanks, and comments that a line feed ends. -/
inductive Scan.Filler : List Char → Prop
  | nil : Filler []
  | blank {char : Char} {rest : List Char} (isBlank : char ∈ [' ', '\t', '\r', '\n']) (more : Filler rest) :
      Filler (char :: rest)
  | comment {words rest : List Char} (oneLine : '\n' ∉ words) (more : Filler rest) :
      Filler ('/' :: '/' :: (words ++ '\n' :: rest))

/-- What may stand between two tokens. -/
def Scan.Separates (text : List Char) : Prop :=
  ∃ char ∈ [' ', '\t', '\r', '\n'], ∃ rest, text = char :: rest ∧ Filler rest

/-- A text that has some words, with something between them. -/
inductive Spelling.Joined : List Spelling → List Char → Prop
  | nil : Joined [] []
  | last (word : Spelling) : Joined [word] word.lexeme.toList
  | cons (word : Spelling) {next : Spelling} {more : List Spelling} {gap text : List Char}
      (separates : Scan.Separates gap) (rest : Joined (next :: more) text) :
      Joined (word :: next :: more) (word.lexeme.toList ++ (gap ++ text))

namespace Scan

/-- Where a word can end: at the end of the text, or at a blank. -/
def Ends (after : List Char) : Prop := ∀ char, after.head? = some char → isGap char = true

section Extents

variable {first : Char} {rest run after : List Char}

theorem Ends.nil : Ends [] := by simp [Ends]

theorem Separates.ends {gap : List Char} (separates : Separates gap) (text : List Char) : Ends (gap ++ text) := by
  obtain ⟨char, isBlank, rest, rfl, _⟩ := separates
  intro other first
  cases first
  exact isGap_iff.mpr isBlank

theorem Ends.takeWhile_eq_nil (ends : Ends after) {test : Char → Bool}
    (stops : ∀ char, isGap char = true → test char = false) : after.takeWhile test = [] := by
  cases after with
  | nil => rfl
  | cons char after => simp [stops char (ends char rfl)]

/-- A run of characters of some class, which no blank is in, ends where a word can end. -/
theorem Ends.takeWhile_append (ends : Ends after) {test : Char → Bool}
    (stops : ∀ char, isGap char = true → test char = false) (all : ∀ char ∈ run, test char = true) :
    (run ++ after).takeWhile test = run := by
  rw [List.takeWhile_append_of_pos all, ends.takeWhile_eq_nil stops, List.append_nil]

theorem not_of_isGap {test : Char → Bool} (none : [' ', '\t', '\r', '\n'].all (!test ·) = true) (char : Char)
    (isBlank : isGap char = true) : test char = false := by
  simpa using List.all_eq_true.mp none char (isGap_iff.mp isBlank)

theorem not_isDigit_of_isGap : ∀ char, isGap char = true → isDigit char = false := not_of_isGap (by decide)

theorem not_isWord_of_isGap : ∀ char, isGap char = true → isWord char = false := not_of_isGap (by decide)

theorem Ends.not_head (ends : Ends after) (char : Char) (visible : isGap char = false) : after.head? ≠ some char := by
  intro same
  rw [ends char same] at visible
  cases visible

end Extents

section Classes

variable {first next : Char} {rest places after : List Char}

/-- The characters that signs, blanks, comments and strings start with. -/
def marks : List Char :=
  ['(', ')', '\x7b', '\x7d', ',', '.', '-', '+', ';', '*', '!', '=', '<', '>', '/', ' ', '\t', '\r', '\n', '"']

theorem mem_marks_of_single? {kind : TokenKind} (found : single? first = some kind) : first ∈ marks := by
  unfold single? at found
  split at found <;> first | decide | cases found

theorem mem_marks_of_double? {kinds : TokenKind × TokenKind} (found : double? first = some kinds) : first ∈ marks := by
  unfold double? at found
  split at found <;> first | decide | cases found

/-- What starts with none of these is a number, a word or a fault. -/
theorem classify_of_notMem (plain : first ∉ marks) : classify first rest =
    if isDigit first then
      (.token .number (some (.number (Number.read (first :: rest.take (numberExtent rest))))), numberExtent rest)
    else if isLetter first then
      (.token (.ofWord (String.ofList (first :: rest.takeWhile isWord))) none, (rest.takeWhile isWord).length)
    else (.fault .unexpectedCharacter, 0) := by
  have notSingle : single? first = none := by
    cases found : single? first with
    | none => rfl
    | some kind => exact absurd (mem_marks_of_single? found) plain
  have notDouble : double? first = none := by
    cases found : double? first with
    | none => rfl
    | some kinds => exact absurd (mem_marks_of_double? found) plain
  have notSlash : first ≠ '/' := by
    rintro rfl
    exact absurd (by decide) plain
  have notGap : isGap first = false := by
    rw [Bool.eq_false_iff]
    intro isBlank
    have among := isGap_iff.mp isBlank
    simp only [List.mem_cons, List.not_mem_nil, or_false] at among
    rcases among with rfl | rfl | rfl | rfl <;> exact plain (by decide)
  have notQuote : first ≠ '"' := by
    rintro rfl
    exact absurd (by decide) plain
  simp only [classify, notSingle, notDouble, notSlash, notGap, notQuote, if_false, Bool.false_eq_true]

theorem notMem_marks_of {test : Char → Bool} (none : marks.all (!test ·) = true) (passes : test first = true) :
    first ∉ marks := by
  intro member
  have fails := List.all_eq_true.mp none first member
  simp [passes] at fails

theorem notMem_marks_of_isDigit : isDigit first = true → first ∉ marks := notMem_marks_of (by decide)

theorem notMem_marks_of_isLetter : isLetter first = true → first ∉ marks := notMem_marks_of (by decide)

theorem not_isDigit_of_isLetter (letter : isLetter first = true) : isDigit first = false := by
  rw [Bool.eq_false_iff]
  intro digit
  simp only [isLetter, isDigit, Bool.or_eq_true, Bool.and_eq_true, decide_eq_true_eq, beq_iff_eq] at letter digit
  rcases letter with (⟨lower, _⟩ | ⟨upper, _⟩) | rfl
  · exact absurd (Char.le_trans lower digit.2) (by decide)
  · exact absurd (Char.le_trans upper digit.2) (by decide)
  · exact absurd digit.2 (by decide)

theorem classify_digit (digit : isDigit first = true) : classify first rest =
    (.token .number (some (.number (Number.read (first :: rest.take (numberExtent rest))))), numberExtent rest) := by
  rw [classify_of_notMem (notMem_marks_of_isDigit digit), if_pos digit]

/-- A word that ends where words can end. -/
theorem classify_letter (letter : isLetter first = true) (word : ∀ char ∈ rest, isWord char = true)
    (ends : Ends after) : classify first (rest ++ after) =
      (.token (.ofWord (String.ofList (first :: rest))) none, rest.length) := by
  rw [classify_of_notMem (notMem_marks_of_isLetter letter), if_neg (by simp [not_isDigit_of_isLetter letter]),
    if_pos letter, ends.takeWhile_append not_isWord_of_isGap word]

theorem numberExtent_whole (digits : ∀ char ∈ rest, isDigit char = true) (ends : Ends after) :
    numberExtent (rest ++ after) = rest.length := by
  have run : (rest ++ after).takeWhile isDigit = rest := ends.takeWhile_append not_isDigit_of_isGap digits
  have point := ends.not_head '.' (by decide)
  unfold numberExtent
  simp only [run, List.drop_left]
  split
  · exact absurd rfl point
  · rfl

theorem numberExtent_decimal (digits : ∀ char ∈ rest, isDigit char = true)
    (digits' : ∀ char ∈ next :: places, isDigit char = true) (ends : Ends after) :
    numberExtent (rest ++ '.' :: next :: places ++ after) = (rest ++ '.' :: next :: places).length := by
  have run : (rest ++ '.' :: next :: places ++ after).takeWhile isDigit = rest := by
    rw [List.append_assoc, List.takeWhile_append_of_pos digits]
    simp [isDigit]
  have fraction : (next :: places ++ after).takeWhile isDigit = next :: places :=
    ends.takeWhile_append not_isDigit_of_isGap digits'
  have left : (rest ++ '.' :: next :: places ++ after).drop rest.length = '.' :: (next :: places ++ after) := by simp
  unfold numberExtent
  simp only [run, left, fraction, List.length_append, List.length_cons, Nat.add_one_ne_zero, if_false]
  omega

/-- A string ends at its second quote, whatever follows. -/
theorem classify_string {body : List Char} (closed : '"' ∉ body) (after : List Char) :
    classify '"' (body ++ ['"'] ++ after) =
      (.token .string (some (.string (String.ofList body))), (body ++ ['"']).length) := by
  have run : (body ++ ['"'] ++ after).takeWhile (· != '"') = body := by
    have inside : ∀ char ∈ body, (char != '"') = true := by
      intro char member
      exact bne_iff_ne.mpr fun same => closed (same ▸ member)
    rw [List.append_assoc, List.takeWhile_append_of_pos inside]
    simp
  have role : classify '"' (body ++ ['"'] ++ after) = stringRole (body ++ ['"'] ++ after) := rfl
  have shorter : body.length < (body ++ ['"'] ++ after).length := by simp
  rw [role, stringRole, run, if_pos shorter, List.length_append]
  rfl

/-- A reserved word is a word, and of its own kind. -/
theorem keyword_eq : ∀ entry ∈ TokenKind.keywords,
    entry.1.toList.head?.any isLetter = true ∧ entry.1.toList.all isWord = true ∧
      TokenKind.ofWord entry.1 = entry.2 := by
  decide

theorem text?_of_mem_keywords : ∀ entry ∈ TokenKind.keywords, entry.2.text? = some entry.1 := by
  decide

theorem ofWord_of_notMem {word : String} (free : word ∉ TokenKind.keywords.map Prod.fst) :
    TokenKind.ofWord word = .identifier := by
  have none : TokenKind.keywords.lookup word = none := by
    rw [List.lookup_eq_none_iff]
    intro entry listed
    rw [bne_iff_ne]
    rintro rfl
    exact free (List.mem_map_of_mem listed)
  rw [TokenKind.ofWord, none, Option.getD_none]

theorem classify_keyword {kind : TokenKind} {text : String} (listed : (text, kind) ∈ TokenKind.keywords)
    (ends : Ends after) : ∃ first rest, text.toList = first :: rest ∧
      classify first (rest ++ after) = (.token kind none, rest.length) := by
  obtain ⟨letter, word, same⟩ := keyword_eq _ listed
  cases spelled : text.toList with
  | nil => simp [spelled] at letter
  | cons first rest =>
    simp only [spelled, List.head?_cons, Option.any_some] at letter
    simp only [spelled, List.all_cons, Bool.and_eq_true, List.all_eq_true] at word
    refine ⟨first, rest, rfl, ?_⟩
    rw [classify_letter letter word.2 ends, ← spelled, String.ofList_toList, same]

/-- Signs and reserved words. -/
theorem classify_fixed {kind : TokenKind} {text : String} (only : kind.text? = some text) (ends : Ends after) :
    ∃ first rest, text.toList = first :: rest ∧ classify first (rest ++ after) = (.token kind none, rest.length) := by
  have notEqual : after.head? ≠ some '=' := ends.not_head '=' (by decide)
  have notSlash : after.head? ≠ some '/' := ends.not_head '/' (by decide)
  cases kind with
  | identifier | string | number | eof => cases only
  | bang =>
    cases only
    exact ⟨'!', [], rfl, if_neg notEqual⟩
  | equal =>
    cases only
    exact ⟨'=', [], rfl, if_neg notEqual⟩
  | less =>
    cases only
    exact ⟨'<', [], rfl, if_neg notEqual⟩
  | greater =>
    cases only
    exact ⟨'>', [], rfl, if_neg notEqual⟩
  | slash =>
    cases only
    exact ⟨'/', [], rfl, if_neg notSlash⟩
  | bangEqual | equalEqual | lessEqual | greaterEqual =>
    cases only
    exact ⟨_, ['='], rfl, rfl⟩
  | leftParen | rightParen | leftBrace | rightBrace | comma | dot | minus | plus | semicolon | star =>
    cases only
    exact ⟨_, [], rfl, rfl⟩
  | _ =>
    cases only
    exact classify_keyword (by decide) ends

/-- A word where words can end: what is found there is that word. -/
theorem classify_legal {word : Spelling} (legal : word.Legal) (ends : Ends after) :
    ∃ first rest, word.lexeme.toList = first :: rest ∧
      classify first (rest ++ after) = (.token word.kind word.literal, rest.length) := by
  cases legal with
  | fixed only => exact classify_fixed only ends
  | @name first rest letter word free =>
    refine ⟨first, rest, String.toList_ofList, ?_⟩
    rw [classify_letter letter word ends, ofWord_of_notMem free]
  | @whole first rest digits =>
    rw [List.forall_mem_cons] at digits
    refine ⟨first, rest, String.toList_ofList, ?_⟩
    rw [classify_digit digits.1, numberExtent_whole digits.2 ends, List.take_left]
  | @decimal first next rest places digits digits' =>
    rw [List.forall_mem_cons] at digits
    refine ⟨first, _, String.toList_ofList, ?_⟩
    rw [classify_digit digits.1, numberExtent_decimal digits.2 digits' ends, List.take_left]
  | string closed => exact ⟨_, _, String.toList_ofList, classify_string closed after⟩

/-- The pieces of a text that starts with a word. -/
theorem pieces_word {word : Spelling} (legal : word.Legal) (ends : Ends after) :
    pieces (word.lexeme.toList ++ after) = ⟨word.lexeme.toList, .token word.kind word.literal⟩ :: pieces after := by
  obtain ⟨first, rest, spelled, classified⟩ := classify_legal legal ends
  rw [spelled, List.cons_append, pieces, classified]
  simp only [List.take_left, List.drop_left]

end Classes

section Fillers

variable {text after : List Char}

theorem pieces_blank {char : Char} (isBlank : char ∈ [' ', '\t', '\r', '\n']) (after : List Char) :
    pieces (char :: after) = ⟨[char], .gap⟩ :: pieces after := by
  have classified : classify char after = (.gap, 0) := by
    simp only [List.mem_cons, List.not_mem_nil, or_false] at isBlank
    rcases isBlank with rfl | rfl | rfl | rfl <;> rfl
  rw [pieces, classified]
  rfl

/-- A comment is a gap of its own, and so is the line feed after it. -/
theorem pieces_comment {words : List Char} (oneLine : '\n' ∉ words) (after : List Char) :
    pieces ('/' :: '/' :: (words ++ '\n' :: after)) =
      ⟨'/' :: '/' :: words, .gap⟩ :: ⟨['\n'], .gap⟩ :: pieces after := by
  have inside : ∀ char ∈ '/' :: words, (char != '\n') = true := by
    intro char member
    rw [bne_iff_ne]
    rintro rfl
    rcases List.mem_cons.mp member with same | among
    · cases same
    · exact oneLine among
  have run : ('/' :: words ++ '\n' :: after).takeWhile (· != '\n') = '/' :: words := by
    rw [List.takeWhile_append_of_pos inside]
    simp
  have classified : classify '/' ('/' :: words ++ '\n' :: after) = (.gap, ('/' :: words).length) := by
    have role : classify '/' ('/' :: words ++ '\n' :: after) = (.gap, _) := rfl
    rw [role, run]
  rw [← List.cons_append, pieces, classified]
  simp only [List.take_left, List.drop_left]
  rw [pieces_blank (by decide)]

/-- What a filler is cut into. -/
theorem pieces_filler (filler : Filler text) (after : List Char) :
    ∃ gaps, (∀ piece ∈ gaps, piece.role = .gap) ∧ pieces (text ++ after) = gaps ++ pieces after := by
  induction filler with
  | nil => exact ⟨[], by simp, rfl⟩
  | @blank char rest isBlank more ih =>
    obtain ⟨gaps, silent, cut⟩ := ih
    refine ⟨⟨[char], .gap⟩ :: gaps, by simpa using silent, ?_⟩
    rw [List.cons_append, pieces_blank isBlank, cut, List.cons_append]
  | @comment words rest oneLine more ih =>
    obtain ⟨gaps, silent, cut⟩ := ih
    refine ⟨⟨'/' :: '/' :: words, .gap⟩ :: ⟨['\n'], .gap⟩ :: gaps, by simpa using silent, ?_⟩
    rw [List.cons_append, List.cons_append, List.append_assoc, List.cons_append, pieces_comment oneLine, cut]
    rfl

end Fillers

/-- The token that a piece is, if it is one, without its place. -/
def spelling? : Piece → Option Spelling
  | ⟨text, .token kind literal⟩ => some ⟨kind, String.ofList text, literal⟩
  | _ => none

/-- Pieces among which there is no fault, and the tokens that they are. -/
structure Yields (list : List Piece) (words : List Spelling) : Prop where
  clean : ∀ piece ∈ list, ∀ cause, piece.role ≠ .fault cause
  words : list.filterMap spelling? = words

namespace Yields

variable {list gaps : List Piece} {words : List Spelling} {word : Spelling}

theorem nil : Yields [] [] := ⟨by simp, rfl⟩

theorem silent (silent : ∀ piece ∈ gaps, piece.role = .gap) (yields : Yields list words) :
    Yields (gaps ++ list) words := by
  induction gaps with
  | nil => exact yields
  | cons gap gaps ih =>
    rw [List.forall_mem_cons] at silent
    have rest := ih silent.2
    obtain ⟨text, role⟩ := gap
    obtain rfl : role = .gap := silent.1
    constructor
    · intro piece member cause
      rcases List.mem_cons.mp member with rfl | later
      · exact Role.noConfusion
      · exact rest.clean piece later cause
    · exact rest.words

theorem cons (yields : Yields list words) :
    Yields (⟨word.lexeme.toList, .token word.kind word.literal⟩ :: list) (word :: words) := by
  constructor
  · intro piece member cause
    rcases List.mem_cons.mp member with rfl | later
    · exact Role.noConfusion
    · exact yields.clean piece later cause
  · simp [spelling?, yields.words]

end Yields

/-- Words with something between them are cut into these words again. -/
theorem yields_joined {words : List Spelling} {text : List Char} (joined : Spelling.Joined words text)
    (legal : ∀ word ∈ words, word.Legal) : Yields (pieces text) words := by
  induction joined with
  | nil =>
    rw [pieces]
    exact .nil
  | last word =>
    have cut := pieces_word (legal word List.mem_cons_self) Ends.nil
    rw [List.append_nil, pieces] at cut
    rw [cut]
    exact .cons .nil
  | @cons word next more gap text separates rest ih =>
    rw [List.forall_mem_cons] at legal
    rw [pieces_word legal.1 (separates.ends text)]
    obtain ⟨char, isBlank, others, rfl, filler⟩ := separates
    obtain ⟨gaps, silent, cut⟩ := pieces_filler (.blank isBlank filler) text
    rw [cut]
    exact .cons (.silent silent (ih legal.2))

section Places

variable {list : List Piece}

theorem map_spelling_locate (position : Position) (list : List Piece) :
    ((locate position list).filterMap token?).map Token.spelling = list.filterMap spelling? := by
  induction list generalizing position with
  | nil => rfl
  | cons piece rest ih =>
    obtain ⟨text, role⟩ := piece
    cases role with
    | token kind literal => exact congrArg _ (ih (position.after text))
    | fault cause => exact ih (position.after text)
    | gap => exact ih (position.after text)

theorem map_spelling_all (text : List Char) (line : Int) :
    (ofText text line).all.map Token.spelling = (pieces text).filterMap spelling? ++ [⟨.eof, "", none⟩] := by
  rw [← map_spelling_locate ⟨line, 0⟩]
  exact List.map_append

theorem faults_of_clean {text : List Char} (clean : ∀ piece ∈ pieces text, ∀ cause, piece.role ≠ .fault cause)
    (line : Int) : (ofText text line).faults = [] := by
  refine List.filterMap_eq_nil_iff.mpr fun entry member => ?_
  obtain ⟨position, text, role⟩ := entry
  cases role with
  | fault cause => exact absurd rfl (clean _ (mem_of_mem_locate member) cause)
  | token kind literal => rfl
  | gap => rfl

end Places

section Spelt

variable {first : Char} {rest : List Char}

/-- A number ends with a digit. -/
theorem take_numberExtent (rest : List Char) :
    (∀ char ∈ rest.take (numberExtent rest), isDigit char = true) ∨
      ∃ whole next places, rest.take (numberExtent rest) = whole ++ '.' :: next :: places ∧
        (∀ char ∈ whole, isDigit char = true) ∧ ∀ char ∈ next :: places, isDigit char = true := by
  have digits (text : List Char) : ∀ char ∈ text.takeWhile isDigit, isDigit char = true :=
    fun char member => List.mem_takeWhile_imp member
  have whole : rest.take (rest.takeWhile isDigit).length = rest.takeWhile isDigit :=
    (List.prefix_iff_eq_take.mp (List.takeWhile_prefix isDigit)).symm
  unfold numberExtent
  dsimp only
  split
  · rename_i places left
    split
    · left
      rw [whole]
      exact digits rest
    · rename_i visible
      right
      have fraction := List.prefix_iff_eq_take.mp (List.takeWhile_prefix isDigit (l := places))
      have taken : rest.take ((rest.takeWhile isDigit).length + 1 + (places.takeWhile isDigit).length) =
          rest.takeWhile isDigit ++ '.' :: places.takeWhile isDigit := by
        rw [Nat.add_assoc, List.take_add, whole, left, Nat.add_comm 1, List.take_succ_cons, ← fraction]
      cases found : places.takeWhile isDigit with
      | nil => simp [found] at visible
      | cons next others =>
        rw [found] at taken
        exact ⟨rest.takeWhile isDigit, next, others, taken, digits rest, found ▸ digits places⟩
  · left
    rw [whole]
    exact digits rest

theorem legal_number (digit : isDigit first = true) (rest : List Char) :
    Spelling.Legal ⟨.number, String.ofList (first :: rest.take (numberExtent rest)),
      some (.number (Number.read (first :: rest.take (numberExtent rest))))⟩ := by
  rcases take_numberExtent rest with digits | ⟨whole, next, places, taken, digits, digits'⟩
  · exact .whole (List.forall_mem_cons.mpr ⟨digit, digits⟩)
  · rw [taken]
    exact .decimal (List.forall_mem_cons.mpr ⟨digit, digits⟩) digits'

/-- A word is a reserved one or a name. -/
theorem legal_word (letter : isLetter first = true) (rest : List Char) :
    Spelling.Legal ⟨.ofWord (String.ofList (first :: rest.takeWhile isWord)),
      String.ofList (first :: rest.take (rest.takeWhile isWord).length), none⟩ := by
  have taken := List.prefix_iff_eq_take.mp (List.takeWhile_prefix isWord (l := rest))
  rw [← taken]
  by_cases reserved : String.ofList (first :: rest.takeWhile isWord) ∈ TokenKind.keywords.map Prod.fst
  · obtain ⟨⟨text, kind⟩, listed, same⟩ := List.mem_map.mp reserved
    obtain ⟨_, _, isKind⟩ := keyword_eq _ listed
    rw [← same, isKind]
    exact .fixed (text?_of_mem_keywords _ listed)
  · rw [ofWord_of_notMem reserved]
    exact .name letter (fun char member => List.mem_takeWhile_imp member) reserved

/-- Strings are what is between two quotes. -/
theorem legal_of_stringRole {kind : TokenKind} {literal : Option Literal} {extent : Nat}
    (found : stringRole rest = (.token kind literal, extent)) :
    Spelling.Legal ⟨kind, String.ofList ('"' :: rest.take extent), literal⟩ := by
  unfold stringRole at found
  dsimp only at found
  split at found
  · rename_i shorter
    cases found
    have body := List.prefix_iff_eq_take.mp (List.takeWhile_prefix (· != '"') (l := rest))
    have closed : '"' ∉ rest.takeWhile (· != '"') := by
      intro member
      have other := List.mem_takeWhile_imp member
      cases other
    have left : rest.dropWhile (· != '"') ≠ [] := by
      rw [← drop_length_takeWhile]
      simpa using shorter
    have quote := List.head_dropWhile_not (· != '"') left
    rw [bne_eq_false_iff_eq] at quote
    have taken : rest.take ((rest.takeWhile (· != '"')).length + 1) = rest.takeWhile (· != '"') ++ ['"'] := by
      rw [List.take_add, ← body, drop_length_takeWhile, ← List.cons_head_tail left, quote]
      rfl
    rw [taken]
    exact .string closed
  · cases found

/-- What is classified as a token is spelled as it may be. -/
theorem legal_of_classify {kind : TokenKind} {literal : Option Literal} {extent : Nat}
    (classified : classify first rest = (.token kind literal, extent)) :
    Spelling.Legal ⟨kind, String.ofList (first :: rest.take extent), literal⟩ := by
  unfold classify at classified
  split at classified
  · rename_i found
    cases classified
    exact .fixed (text?_of_single? found)
  split at classified
  · rename_i found
    obtain ⟨alone, followed⟩ := text?_of_double? found
    split at classified
    · rename_i isEqual
      cases classified
      obtain ⟨others, rfl⟩ := List.head?_eq_some_iff.mp isEqual
      exact .fixed followed
    · cases classified
      exact .fixed alone
  split at classified
  · rename_i isSlash
    subst isSlash
    split at classified <;> cases classified
    exact .fixed rfl
  split at classified
  · cases classified
  split at classified
  · rename_i quote
    subst quote
    exact legal_of_stringRole classified
  split at classified
  · rename_i digit
    cases classified
    exact legal_number digit rest
  split at classified
  · rename_i letter
    cases classified
    exact legal_word letter rest
  · cases classified

/-- The tokens of a text are spelled as they may be. -/
theorem legal_of_mem {text : List Char} {line : Int} {token : Token} (member : token ∈ (ofText text line).tokens) :
    token.spelling.Legal := by
  obtain ⟨⟨position, spelling, role⟩, placed, same⟩ := List.mem_filterMap.mp member
  cases role with
  | token kind literal =>
    cases same
    obtain ⟨first, rest, extent, classified, rfl⟩ := classify_of_mem_pieces (mem_of_mem_locate placed)
    exact legal_of_classify classified
  | fault cause => cases same
  | gap => cases same

end Spelt

theorem separates_space : Separates [' '] := ⟨' ', by decide, [], rfl, .nil⟩

theorem joined_intercalate (words : List Spelling) :
    Spelling.Joined words ([' '].intercalate (words.map fun word => word.lexeme.toList)) := by
  induction words with
  | nil => exact .nil
  | cons word more ih =>
    cases more with
    | nil =>
      rw [List.map_singleton, List.intercalate_singleton]
      exact .last word
    | cons next more =>
      rw [List.map_cons, List.map_cons, List.intercalate_cons_cons, List.append_assoc]
      exact .cons word separates_space ih

/-- Words with something between them are scanned as these words. -/
theorem spelling_joined {words : List Spelling} {text : List Char} (joined : Spelling.Joined words text)
    (legal : ∀ word ∈ words, word.Legal) (line : Int) :
    (ofText text line).faults = [] ∧ (ofText text line).all.map Token.spelling = words ++ [⟨.eof, "", none⟩] := by
  have yields := yields_joined joined legal
  constructor
  · exact faults_of_clean yields.clean line
  · rw [map_spelling_all, yields.words]

/-- Scanning inverts spelling: words with blanks and comments between them are scanned as these words, and the tokens
of any text are such words, so that their lexemes, with single spaces between them, are scanned as these tokens. -/
theorem scan_inverts_spelling :
    (∀ (words : List Spelling) (text : List Char) (line : Int), (∀ word ∈ words, word.Legal) →
      Spelling.Joined words text →
        (ofText text line).faults = [] ∧
          (ofText text line).all.map Token.spelling = words ++ [⟨.eof, "", none⟩]) ∧
    ∀ (text : List Char) (line line' : Int),
      let scan := ofText text line
      let again := ofText ([' '].intercalate (scan.tokens.map fun token => token.lexeme.toList)) line'
      (∀ token ∈ scan.tokens, token.spelling.Legal) ∧ again.faults = [] ∧
        again.all.map Token.spelling = scan.all.map Token.spelling := by
  constructor
  · intro words text line legal joined
    exact spelling_joined joined legal line
  · intro text line line'
    have legal : ∀ word ∈ (ofText text line).tokens.map Token.spelling, word.Legal := by
      intro word member
      obtain ⟨token, among, rfl⟩ := List.mem_map.mp member
      exact legal_of_mem among
    have joined := joined_intercalate ((ofText text line).tokens.map Token.spelling)
    rw [List.map_map] at joined
    obtain ⟨clean, same⟩ := spelling_joined joined legal line'
    refine ⟨fun token => legal_of_mem, clean, same.trans ?_⟩
    rw [all, List.map_append]
    rfl

/-- A sign, a comment that looks like one, a word that starts like a reserved one, and a number before a point. -/
theorem scan_inverts_spelling_of_neighbours :
    let words : List Spelling := [⟨.equal, "=", none⟩, ⟨.identifier, "orchid", none⟩,
      ⟨.number, "1.5", some (.number (Number.read ['1', '.', '5']))⟩, ⟨.dot, ".", none⟩]
    let text := "= //=\n\torchid 1.5 .".toList
    (∀ word ∈ words, word.Legal) ∧ Spelling.Joined words text ∧ (ofText text 1).faults = [] ∧
      (ofText text 1).all.map Token.spelling = words ++ [⟨.eof, "", none⟩] := by
  intro words text
  have name : Spelling.Legal ⟨.identifier, String.ofList ('o' :: ['r', 'c', 'h', 'i', 'd']), none⟩ :=
    .name (by decide) (List.all_eq_true.mp (by decide)) (by decide)
  have number := @Spelling.Legal.decimal '1' '5' [] [] (List.all_eq_true.mp (by decide))
    (List.all_eq_true.mp (by decide))
  have legal : ∀ word ∈ words, word.Legal := by
    simp only [words, List.forall_mem_cons, List.not_mem_nil, false_implies, implies_true, and_true]
    exact ⟨.fixed rfl, name, number, .fixed rfl⟩
  have comment : Filler ('/' :: '/' :: (['='] ++ '\n' :: ['\t'])) := .comment (by decide) (.blank (by decide) .nil)
  have joined : Spelling.Joined words text :=
    .cons _ ⟨' ', by decide, _, rfl, comment⟩ (.cons _ separates_space (.cons _ separates_space (.last _)))
  exact ⟨legal, joined, scan_inverts_spelling.1 words text 1 legal joined⟩

end Scan

end Lox
