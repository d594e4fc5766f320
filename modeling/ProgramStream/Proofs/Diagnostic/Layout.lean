import ProgramStream.Diagnostic.Layout
import ProgramStream.Proofs.Diagnostic.Escape
/-!
# Diagnostic layout — a value is read off its lines

A value is `Tidy` if its texts look like nothing but texts: they hold no end of
line, do not begin like a named value, and do not end in a bracket, in which a
group opens and closes. The first line of a tidy value then tells its form
(`formOf_first`), a name ends at its colon, and a group at the first line that is
no further in than its opening. So values with the same lines are the same
(`lines_inj`), whatever follows them, and since no line holds an end of line,
values with the same text are (`render_inj`).
-/

namespace ProgramStream

/-- **Two lists are the same up to where something else stands**: what stands
before it is of a kind `p` that it is not of. -/
theorem append_cons_inj_of {α : Type} {p : α → Bool} {xs ys rest rest' : List α} {a b : α}
    (hxs : ∀ x ∈ xs, p x = true) (hys : ∀ y ∈ ys, p y = true) (ha : p a = false)
    (hb : p b = false) (h : xs ++ a :: rest = ys ++ b :: rest') :
    xs = ys ∧ a = b ∧ rest = rest' := by
  have hfirst := congrArg (List.takeWhile p) h
  rw [List.takeWhile_append_of_pos hxs, List.takeWhile_append_of_pos hys,
    List.takeWhile_cons_of_neg (by simp [ha]), List.takeWhile_cons_of_neg (by simp [hb]),
    List.append_nil, List.append_nil] at hfirst
  subst hfirst
  exact ⟨rfl, List.cons.inj (List.append_cancel_left h)⟩

namespace Diagnostic

namespace Shown

/-! ## Tidy values -/

/-- The characters of names and numbers. -/
def isWordChar (c : Char) : Bool := c.isAlphanum || c = '_'

/-- A name or a number. -/
def isWord (s : String) : Bool := s.toList.all isWordChar

/-- The characters that a group opens with. -/
def isOpening (c : Char) : Bool := c = '\x7b' || c = '(' || c = '['

/-- The characters that a group closes with. -/
def isClosing (c : Char) : Bool := c = '\x7d' || c = ')' || c = ']'

/-- Characters begin with a word that a colon follows, as a named value does. -/
def isNamed (cs : List Char) : Bool := (cs.dropWhile isWordChar).head? = some ':'

/-- A text without an end of line. -/
def IsLine (s : String) : Prop := '\n' ∉ s.toList

theorem IsLine.append {s t : String} (hs : IsLine s) (ht : IsLine t) : IsLine (s ++ t) := by
  rw [IsLine, String.toList_append, List.mem_append]
  exact fun h => h.elim hs ht

/-- A text that is no other value. -/
structure IsPlain (s : String) : Prop where
  isLine : IsLine s
  isNamed_eq : isNamed s.toList = false
  last : ∀ c ∈ s.toList.getLast?, isOpening c = false ∧ isClosing c = false

/-- The texts around the items of a group. -/
structure IsBracketed (opening closing : String) : Prop where
  isLine : IsLine opening
  isNamed_eq : isNamed opening.toList = false
  opens : ∃ c, opening.toList.getLast? = some c ∧ isOpening c = true
  closes : ∃ c, closing.toList = [c] ∧ isClosing c = true

/-- A value whose texts look like nothing but texts. -/
inductive Tidy : Shown → Prop
  | text {s : String} (h : IsPlain s) : Tidy (.text s)
  | named {name : String} {value : Shown} (hname : isWord name = true) (h : Tidy value) :
      Tidy (.named name value)
  | group {opening closing : String} {items : List Shown} (hbracketed : IsBracketed opening closing)
      (h : ∀ item ∈ items, Tidy item) : Tidy (.group opening closing items)

/-! ## The lines of an item -/

/-- The lines of a value that is an item of a group, not yet moved in. -/
def commaLines (s : Shown) : List String := onLast "," s.lines

variable {s t : Shown} {opening closing name : String} {items : List Shown}

theorem onFirst_ne_nil (first : String) (lines : List String) : onFirst first lines ≠ [] := by
  cases lines <;> simp [onFirst]

theorem lines_ne_nil (s : Shown) : s.lines ≠ [] := by
  match s with
  | .text _ => simp [lines]
  | .named _ value => rw [lines]; exact onFirst_ne_nil _ _
  | .group _ _ [] => simp [lines]
  | .group _ _ (_ :: _) => simp [lines]

theorem onLast_cons {last line : String} {lines : List String} (h : lines ≠ []) :
    onLast last (line :: lines) = line :: onLast last lines := by
  cases lines with
  | nil => exact absurd rfl h
  | cons next lines => rfl

theorem onLast_append_singleton (last line : String) (lines : List String) :
    onLast last (lines ++ [line]) = lines ++ [line ++ last] := by
  induction lines with
  | nil => rfl
  | cons first lines ih => rw [List.cons_append, onLast_cons (by simp), ih, List.cons_append]

theorem itemLines_eq (items : List Shown) :
    itemLines items = indent (items.flatMap commaLines) := by
  induction items with
  | nil => rfl
  | cons item items ih =>
    rw [itemLines, ih, List.flatMap_cons, indent, indent, indent, List.map_append, commaLines]

theorem commaLines_text (s : String) : (text s).commaLines = [s ++ ","] := rfl

/-- A name stands before the first line of its value. -/
theorem commaLines_named (name : String) (value : Shown) :
    ∃ first more, value.commaLines = first :: more ∧
      (named name value).commaLines = (name ++ ": " ++ first) :: more := by
  obtain ⟨line, lines, hlines⟩ := List.exists_cons_of_ne_nil value.lines_ne_nil
  unfold commaLines
  rw [Shown.lines, hlines, onFirst]
  cases lines with
  | nil => exact ⟨_, [], rfl, by rw [onLast, String.append_assoc]⟩
  | cons next lines => exact ⟨_, _, rfl, rfl⟩

theorem commaLines_group_nil (opening closing : String) :
    (group opening closing []).commaLines = [opening ++ closing ++ ","] := rfl

/-- A group has a line of its own before its items and one behind them. -/
theorem commaLines_group_cons (opening closing : String) (item : Shown) (items : List Shown) :
    (group opening closing (item :: items)).commaLines =
      opening :: (indent ((item :: items).flatMap commaLines) ++ [closing ++ ","]) := by
  rw [commaLines, lines, itemLines_eq, onLast_cons (by simp), onLast_append_singleton]

/-! ## The first line -/

/-- The forms of values. -/
inductive Form where
  | text
  | named
  | emptyGroup
  | group
  deriving DecidableEq

/-- The form of a value. -/
def form : Shown → Form
  | .text _ => .text
  | .named _ _ => .named
  | .group _ _ [] => .emptyGroup
  | .group _ _ (_ :: _) => .group

/-- The form that the first line of an item tells. -/
def formOf (first : List Char) : Form :=
  if isNamed first then .named
  else if first.getLast?.any isOpening then .group
  else if first.dropLast.getLast?.any isClosing then .emptyGroup
  else .text

theorem isNamed_append {cs ds : List Char} (hcs : isNamed cs = false) (hds : isNamed ds = false) :
    isNamed (cs ++ ds) = false := by
  rw [isNamed, List.dropWhile_append]
  cases hrest : cs.dropWhile isWordChar with
  | nil => exact hds
  | cons c rest =>
    rw [isNamed, hrest] at hcs
    exact hcs

theorem isNamed_name (hname : isWord name = true) (rest : List Char) :
    isNamed (name.toList ++ ':' :: rest) = true := by
  rw [isNamed, List.dropWhile_append_of_pos (List.all_eq_true.1 hname)]
  rfl

theorem eq_of_isOpening {c : Char} (h : isOpening c = true) : c = '\x7b' ∨ c = '(' ∨ c = '[' := by
  simpa [isOpening, or_assoc] using h

theorem eq_of_isClosing {c : Char} (h : isClosing c = true) : c = '\x7d' ∨ c = ')' ∨ c = ']' := by
  simpa [isClosing, or_assoc] using h

theorem isNamed_closing {c : Char} (h : isClosing c = true) : isNamed [c] = false := by
  rcases eq_of_isClosing h with rfl | rfl | rfl <;> rfl

/-- A comma at the end leaves it open whether a text or a group is before it. -/
theorem formOf_comma {cs : List Char} (h : isNamed cs = false) :
    formOf (cs ++ [',']) = if cs.getLast?.any isClosing then .emptyGroup else .text := by
  rw [formOf, if_neg (by rw [isNamed_append h rfl]; exact Bool.false_ne_true),
    List.getLast?_concat, List.dropLast_concat]
  rfl

/-- **The first line of an item tells its form.** -/
theorem formOf_first (h : Tidy s) {first : String} {more : List String}
    (hlines : s.commaLines = first :: more) : formOf first.toList = s.form := by
  cases h with
  | text hplain =>
    rw [commaLines_text] at hlines
    obtain ⟨rfl, -⟩ := List.cons.inj hlines
    rw [String.toList_append]
    refine (formOf_comma hplain.isNamed_eq).trans (if_neg ?_)
    rw [Option.any_eq_true]
    rintro ⟨c, hc, hclosing⟩
    rw [(hplain.last c hc).2] at hclosing
    cases hclosing
  | named hname hvalue =>
    rename_i name value
    obtain ⟨line, lines, -, hnamed⟩ := commaLines_named name value
    rw [hnamed] at hlines
    obtain ⟨rfl, -⟩ := List.cons.inj hlines
    rw [String.toList_append, String.toList_append, List.append_assoc]
    exact if_pos (isNamed_name hname _)
  | @group opening closing items hbracketed hitems =>
    cases items with
    | nil =>
      obtain ⟨c, hc, hcloses⟩ := hbracketed.closes
      rw [commaLines_group_nil] at hlines
      obtain ⟨rfl, -⟩ := List.cons.inj hlines
      rw [String.toList_append, String.toList_append, hc]
      refine (formOf_comma (isNamed_append hbracketed.isNamed_eq ?_)).trans (if_pos ?_)
      · exact isNamed_closing hcloses
      · rw [List.getLast?_concat]
        exact hcloses
    | cons item items =>
      obtain ⟨c, hc, hopens⟩ := hbracketed.opens
      rw [commaLines_group_cons] at hlines
      obtain ⟨rfl, -⟩ := List.cons.inj hlines
      rw [formOf, if_neg (by rw [hbracketed.isNamed_eq]; exact Bool.false_ne_true), hc]
      exact if_pos hopens

/-! ## Reading lines -/

/-- A value is told by its lines, whatever follows them. -/
def IsTold (s : Shown) : Prop :=
  ∀ t, Tidy t → ∀ rest rest', s.commaLines ++ rest = t.commaLines ++ rest' → s = t ∧ rest = rest'

theorem commaLines_ne_nil (s : Shown) : s.commaLines ≠ [] := by
  rw [commaLines]
  cases s.lines with
  | nil => simp [onLast]
  | cons line lines => cases lines <;> simp [onLast]

/-- A line that is further in than the lines around it. -/
def isIndented (line : String) : Bool := line.toList.head? = some ' '

theorem isIndented_of_mem_indent {lines : List String} {line : String} (h : line ∈ indent lines) :
    isIndented line = true := by
  obtain ⟨inner, -, rfl⟩ := List.mem_map.1 h
  rw [isIndented, String.toList_append]
  rfl

theorem indent_inj {xs ys : List String} (h : indent xs = indent ys) : xs = ys := by
  refine (List.map_inj_right fun line line' heq => ?_).1 h
  have hlist := congrArg String.toList heq
  simp only [String.toList_append] at hlist
  exact String.toList_inj.1 (List.append_cancel_left hlist)

theorem isIndented_closing {c : Char} (hclosing : closing.toList = [c]) (h : isClosing c = true) :
    isIndented (closing ++ ",") = false := by
  rw [isIndented, String.toList_append, hclosing]
  rcases eq_of_isClosing h with rfl | rfl | rfl <;> rfl

/-- Items that begin with the same line have the same form. -/
theorem form_eq (hs : Tidy s) (ht : Tidy t) {rest rest' : List String}
    (h : s.commaLines ++ rest = t.commaLines ++ rest') : s.form = t.form := by
  obtain ⟨first, more, hfirst⟩ := List.exists_cons_of_ne_nil s.commaLines_ne_nil
  obtain ⟨first', more', hfirst'⟩ := List.exists_cons_of_ne_nil t.commaLines_ne_nil
  rw [hfirst, hfirst'] at h
  rw [← formOf_first hs hfirst, ← formOf_first ht hfirst', (List.cons.inj h).1]

theorem isTold_text (h : IsPlain name) : IsTold (.text name) := by
  intro t ht rest rest' hlines
  have hform := form_eq (.text h) ht hlines
  match t, ht with
  | .text name', _ =>
    obtain ⟨hline, hrest⟩ := List.cons.inj hlines
    have hchars := congrArg String.toList hline
    rw [String.toList_append, String.toList_append] at hchars
    exact ⟨by rw [String.toList_inj.1 (List.append_cancel_right hchars)], hrest⟩
  | .named _ _, _ => cases hform
  | .group _ _ [], _ => cases hform
  | .group _ _ (_ :: _), _ => cases hform

/-- A name ends at the first character that is of no word. -/
theorem isTold_named {value : Shown} (hname : isWord name = true)
    (hvalue : Tidy value) (h : IsTold value) : IsTold (.named name value) := by
  intro t ht rest rest' hlines
  have hform := form_eq (.named hname hvalue) ht hlines
  match t, ht with
  | .named name' value', .named hname' hvalue' =>
    obtain ⟨first, more, hfirst, hnamed⟩ := commaLines_named name value
    obtain ⟨first', more', hfirst', hnamed'⟩ := commaLines_named name' value'
    rw [hnamed, hnamed', List.cons_append, List.cons_append] at hlines
    obtain ⟨hline, hrest⟩ := List.cons.inj hlines
    have hchars := congrArg String.toList hline
    simp only [String.toList_append, show ": ".toList = [':', ' '] from rfl, List.append_assoc,
      List.cons_append, List.nil_append] at hchars
    obtain ⟨hnames, -, hvalues⟩ := append_cons_inj_of (List.all_eq_true.1 hname)
      (List.all_eq_true.1 hname') (by decide) (by decide) hchars
    have hfirsts : first = first' := String.toList_inj.1 (List.cons.inj hvalues).2
    have hsame : value.commaLines ++ rest = value'.commaLines ++ rest' := by
      rw [hfirst, hfirst', List.cons_append, List.cons_append, hfirsts, hrest]
    obtain ⟨rfl, hrest⟩ := h value' hvalue' rest rest' hsame
    exact ⟨by rw [String.toList_inj.1 hnames], hrest⟩
  | .text _, _ => cases hform
  | .group _ _ [], _ => cases hform
  | .group _ _ (_ :: _), _ => cases hform

/-- A group ends at the first line that is no further in than its opening. -/
theorem isTold_group (hbracketed : IsBracketed opening closing) (hitems : ∀ item ∈ items, Tidy item)
    (h : ∀ item ∈ items, IsTold item) : IsTold (.group opening closing items) := by
  intro t ht rest rest' hlines
  have hform := form_eq (.group hbracketed hitems) ht hlines
  match t, ht with
  | .group opening' closing' items', .group hbracketed' hitems' =>
    obtain ⟨c, hc, hcloses⟩ := hbracketed.closes
    obtain ⟨c', hc', hcloses'⟩ := hbracketed'.closes
    match items, items' with
    | [], [] =>
      obtain ⟨hline, hrest⟩ := List.cons.inj hlines
      have hchars := congrArg String.toList hline
      simp only [String.toList_append] at hchars
      obtain ⟨hopening, hclosing⟩ :=
        List.append_inj' (List.append_cancel_right hchars) (by rw [hc, hc']; rfl)
      exact ⟨by rw [String.toList_inj.1 hopening, String.toList_inj.1 hclosing], hrest⟩
    | item :: items, item' :: items' =>
      rw [commaLines_group_cons, commaLines_group_cons] at hlines
      simp only [List.cons_append, List.append_assoc, List.nil_append] at hlines
      obtain ⟨hopening, hlines⟩ := List.cons.inj hlines
      obtain ⟨hbody, hclosing, hrest⟩ := append_cons_inj_of (fun _ => isIndented_of_mem_indent)
        (fun _ => isIndented_of_mem_indent) (isIndented_closing hc hcloses)
        (isIndented_closing hc' hcloses') hlines
      have hsame := eq_of_flatMap_eq commaLines_ne_nil h hitems' (indent_inj hbody)
      have hchars := congrArg String.toList hclosing
      rw [String.toList_append, String.toList_append] at hchars
      have hclosings := String.toList_inj.1 (List.append_cancel_right hchars)
      exact ⟨by rw [hopening, hclosings, hsame], hrest⟩
    | [], _ :: _ => cases hform
    | _ :: _, [] => cases hform
  | .text _, _ => cases items <;> cases hform
  | .named _ _, _ => cases items <;> cases hform

/-- **A tidy value is told by its lines.** -/
theorem Tidy.isTold (h : Tidy s) : IsTold s := by
  induction h with
  | text hplain => exact isTold_text hplain
  | named hname hvalue ih => exact isTold_named hname hvalue ih
  | group hbracketed hitems ih => exact isTold_group hbracketed hitems ih

theorem lines_inj (hs : Tidy s) (ht : Tidy t) (h : s.lines = t.lines) : s = t := by
  refine (hs.isTold t ht [] [] ?_).1
  rw [commaLines, commaLines, h]

/-! ## Reading text -/

theorem isLine_onFirst {first : String} {lines : List String} (hfirst : IsLine first)
    (h : ∀ line ∈ lines, IsLine line) : ∀ line ∈ onFirst first lines, IsLine line := by
  cases lines with
  | nil => exact List.forall_mem_singleton.2 hfirst
  | cons line lines =>
    obtain ⟨hline, hlines⟩ := List.forall_mem_cons.1 h
    exact List.forall_mem_cons.2 ⟨hfirst.append hline, hlines⟩

theorem isLine_onLast {last : String} {lines : List String} (hlast : IsLine last)
    (h : ∀ line ∈ lines, IsLine line) : ∀ line ∈ onLast last lines, IsLine line := by
  induction lines with
  | nil => exact List.forall_mem_singleton.2 hlast
  | cons line lines ih =>
    obtain ⟨hline, hlines⟩ := List.forall_mem_cons.1 h
    cases lines with
    | nil => exact List.forall_mem_singleton.2 (hline.append hlast)
    | cons next lines => exact List.forall_mem_cons.2 ⟨hline, ih hlines⟩

/-- The items of a group are moved in line by line. -/
theorem isLine_itemLines (h : ∀ item ∈ items, ∀ line ∈ item.lines, IsLine line) :
    ∀ line ∈ itemLines items, IsLine line := by
  intro line hline
  rw [itemLines_eq] at hline
  obtain ⟨inner, hinner, rfl⟩ := List.mem_map.1 hline
  obtain ⟨item, hitem, hmem⟩ := List.mem_flatMap.1 hinner
  have hline : IsLine inner := isLine_onLast (by simp [IsLine]) (h item hitem) inner hmem
  exact IsLine.append (by simp [IsLine]) hline

theorem isLine_word {word : String} (h : isWord word = true) : IsLine word :=
  fun hnewline => absurd (List.all_eq_true.1 h _ hnewline) (by decide)

theorem isLine_closing {c : Char} (hclosing : closing.toList = [c]) (h : isClosing c = true) :
    IsLine closing := by
  rw [IsLine, hclosing]
  rcases eq_of_isClosing h with rfl | rfl | rfl <;> decide

/-- **No line of a tidy value holds an end of line.** -/
theorem Tidy.isLine (h : Tidy s) : ∀ line ∈ s.lines, IsLine line := by
  induction h with
  | text hplain =>
    rw [lines]
    exact List.forall_mem_singleton.2 hplain.isLine
  | named hname hvalue ih =>
    rw [lines]
    exact isLine_onFirst ((isLine_word hname).append (by simp [IsLine])) ih
  | @group opening closing items hbracketed hitems ih =>
    obtain ⟨c, hc, hcloses⟩ := hbracketed.closes
    have hclosing := isLine_closing hc hcloses
    match items with
    | [] =>
      rw [lines]
      exact List.forall_mem_singleton.2 (hbracketed.isLine.append hclosing)
    | item :: items =>
      rw [lines]
      refine List.forall_mem_cons.2 ⟨hbracketed.isLine, ?_⟩
      exact List.forall_mem_append.2 ⟨isLine_itemLines ih, List.forall_mem_singleton.2 hclosing⟩

theorem toList_render (s : Shown) :
    s.render.toList = s.lines.flatMap fun line => line.toList ++ ['\n'] := by
  have hfold : ∀ (lines : List String) (acc : String),
      (lines.foldl (fun acc line => acc ++ line ++ "\n") acc).toList =
        acc.toList ++ lines.flatMap fun line => line.toList ++ ['\n'] := by
    intro lines
    induction lines with
    | nil => simp
    | cons line lines ih =>
      intro acc
      rw [List.foldl_cons, ih]
      simp
  exact hfold s.lines ""

/-- Lines are told by their text: each ends where the next end of line is. -/
theorem eq_of_flatMap_newline {xs ys : List String} (hxs : ∀ x ∈ xs, IsLine x)
    (hys : ∀ y ∈ ys, IsLine y)
    (h : (xs.flatMap fun line => line.toList ++ ['\n']) =
      ys.flatMap fun line => line.toList ++ ['\n']) : xs = ys := by
  have hinner {line : String} (hline : IsLine line) : ∀ c ∈ line.toList, (c != '\n') = true :=
    fun c hc => bne_iff_ne.2 fun heq => hline (heq ▸ hc)
  refine eq_of_flatMap_eq (by simp) (fun x hx y hy rest rest' heq => ?_) hys h
  simp only [List.append_assoc, List.cons_append, List.nil_append] at heq
  obtain ⟨hline, -, hrest⟩ :=
    append_cons_inj_of (hinner (hxs x hx)) (hinner hy) (by decide) (by decide) heq
  exact ⟨String.toList_inj.1 hline, hrest⟩

/-- **A tidy value is told by its text.** -/
theorem render_inj (hs : Tidy s) (ht : Tidy t) (h : s.render = t.render) : s = t := by
  refine lines_inj hs ht (eq_of_flatMap_newline hs.isLine ht.isLine ?_)
  rw [← toList_render, ← toList_render, h]

end Shown

end Diagnostic

end ProgramStream
