import JavaAtlas.Proofs.Storage.Access

/-!
# Paths and their texts

A path as written is written as the text it was read from.  A plain path, of names for
entries that hold no slash, is read from its text again, and what its text begins with
tells about its names: it begins with the text of another plain path and a slash exactly
if it leads below that one.

Main definitions:

- `Path.IsPlain`: the paths of names for entries.
- `Path.IsAbove`: a path leads to a place below another one by names alone.
- `Path.EndsInside`: the text of a path ends inside a name of another one.

Main results:

- Theorem `Path.text_asWritten`: a path as written gives its text again.
- Theorem `Path.IsPlain.ofText_text`: a plain path comes back from its text.
- Theorem `Path.front_prefix_iff`, `Path.text_prefix_iff`: texts that begin with the text
  of a plain path.
-/

namespace JavaAtlas.Text

/-- Pieces without separators come back from their text. -/
theorem pieces_intercalate {separator : Char} {ls : List (List Char)} (hne : ls ≠ [])
    (h : ∀ l ∈ ls, separator ∉ l) : pieces separator ([separator].intercalate ls) = ls := by
  induction ls with
  | nil => exact absurd rfl hne
  | cons l ls ih =>
      have hl := h l List.mem_cons_self
      cases ls with
      | nil => rw [List.intercalate_singleton, pieces_of_not_mem hl]
      | cons m ms =>
          have hrest := ih (List.cons_ne_nil m ms) fun k hk => h k (List.mem_cons_of_mem l hk)
          rw [List.intercalate_cons_cons, List.append_assoc, List.singleton_append,
            pieces_append_cons hl, hrest]

end JavaAtlas.Text

namespace JavaAtlas.Storage.Path

open FileSystem (IsEntryName)

/-! ## Names in a row -/

/-- Names with slashes between, character by character. -/
def joined (names : List String) : List Char :=
  ['/'].intercalate (names.map String.toList)

theorem toList_intercalate (names : List String) :
    ("/".intercalate names).toList = joined names := by
  rw [String.toList_intercalate]
  rfl

@[simp]
theorem joined_nil : joined [] = [] := rfl

@[simp]
theorem joined_singleton (n : String) : joined [n] = n.toList := by
  simp [joined]

theorem joined_cons {names : List String} (h : names ≠ []) (n : String) :
    joined (n :: names) = n.toList ++ '/' :: joined names := by
  cases names with
  | nil => exact absurd rfl h
  | cons m names => simp [joined, List.intercalate_cons_cons]

/-- Names with a slash behind each, character by character. -/
def slashed (names : List String) : List Char :=
  names.flatMap fun n => n.toList ++ ['/']

@[simp]
theorem slashed_nil : slashed [] = [] := rfl

@[simp]
theorem slashed_cons (n : String) (names : List String) :
    slashed (n :: names) = n.toList ++ '/' :: slashed names := by
  simp [slashed]

/-- Names in front of others stand before them with their slashes. -/
theorem joined_append {rest : List String} (names : List String) (h : rest ≠ []) :
    joined (names ++ rest) = slashed names ++ joined rest := by
  induction names with
  | nil => rfl
  | cons n names ih =>
      rw [List.cons_append, joined_cons (List.append_ne_nil_of_right_ne_nil names h), ih,
        slashed_cons, List.append_assoc, List.cons_append]

theorem slashed_eq {names : List String} (h : names ≠ []) :
    slashed names = joined names ++ ['/'] := by
  induction names with
  | nil => exact absurd rfl h
  | cons n names ih =>
      by_cases hne : names = []
      case pos => simp [hne]
      case neg => rw [slashed_cons, ih hne, joined_cons hne, List.append_assoc, List.cons_append]

theorem pieces_joined {names : List String} (hne : names ≠ [])
    (h : ∀ n ∈ names, '/' ∉ n.toList) : Text.pieces '/' (joined names) = names.map String.toList :=
  Text.pieces_intercalate (by simpa using hne) (by simpa using h)

/-- The text of a path is that of its beginning and its names. -/
theorem toList_text {p : Path} (h : p ≠ ⟨.here, []⟩) :
    p.text.toList = p.anchor.text.toList ++ joined p.names := by
  obtain ⟨anchor, names⟩ := p
  rw [← toList_intercalate, ← String.toList_append]
  unfold text
  split
  case h_1 hanchor hnames =>
    obtain rfl : anchor = .here := hanchor
    obtain rfl : names = [] := hnames
    exact absurd rfl h
  case h_2 => rfl

/-- The beginning of a text is cut off at the front. -/
theorem split_append (cs : List Char) :
    (Anchor.split cs).1.text.toList ++ (Anchor.split cs).2 = cs := by
  unfold Anchor.split
  split <;> simp [Anchor.text]

/-- A path as written gives its text again. -/
theorem text_asWritten (t : String) : (asWritten t).text = t := by
  have hpieces : joined ((Text.pieces '/' (Anchor.split t.toList).2).map String.ofList) =
      (Anchor.split t.toList).2 := by
    have hchars : ((Text.pieces '/' (Anchor.split t.toList).2).map String.ofList).map
        String.toList = Text.pieces '/' (Anchor.split t.toList).2 := by
      simp
    rw [joined, hchars, Text.intercalate_pieces]
  have hne : asWritten t ≠ ⟨.here, []⟩ := by
    intro h
    have hnames := congrArg Path.names h
    exact Text.pieces_ne_nil _ _ (List.map_eq_nil_iff.mp hnames)
  refine String.toList_inj.mp ?_
  rw [toList_text hne]
  change (Anchor.split t.toList).1.text.toList ++
    joined ((Text.pieces '/' (Anchor.split t.toList).2).map String.ofList) = t.toList
  rw [hpieces, split_append]

/-! ## Plain paths -/

/-- A path of names for entries without slashes, not written with two slashes at the
front. -/
structure IsPlain (p : Path) : Prop where
  anchor : p.anchor ≠ .doubleRoot
  names : ∀ n ∈ p.names, IsEntryName n ∧ '/' ∉ n.toList

/-- A name for an entry does not begin with a slash, and it begins. -/
theorem exists_cons_of_isEntryName {n : String} (h : IsEntryName n ∧ '/' ∉ n.toList) :
    ∃ c cs, n.toList = c :: cs ∧ c ≠ '/' := by
  cases hn : n.toList with
  | nil =>
      obtain rfl : n = "" := String.toList_eq_nil_iff.mp hn
      exact absurd h.1 (by decide)
  | cons c cs =>
      refine ⟨c, cs, rfl, ?_⟩
      rintro rfl
      exact h.2 (by simp [hn])

/-- Names for entries in a row do not begin with a slash. -/
theorem exists_joined_cons {names : List String} (hne : names ≠ [])
    (h : ∀ n ∈ names, IsEntryName n ∧ '/' ∉ n.toList) :
    ∃ c cs, joined names = c :: cs ∧ c ≠ '/' := by
  cases names with
  | nil => exact absurd rfl hne
  | cons n names =>
      obtain ⟨c, cs, hn, hc⟩ := exists_cons_of_isEntryName (h n List.mem_cons_self)
      cases names with
      | nil => exact ⟨c, cs, by rw [joined_singleton, hn], hc⟩
      | cons m names => exact ⟨c, _, by rw [joined_cons (List.cons_ne_nil m names), hn]; rfl, hc⟩

/-- A text that does not begin with a slash is split at the front. -/
theorem split_anchor {a : Anchor} (ha : a ≠ .doubleRoot) {cs : List Char}
    (h : ∀ c ∈ cs.head?, c ≠ '/') : Anchor.split (a.text.toList ++ cs) = (a, cs) := by
  have hhead : ∀ rest, cs ≠ '/' :: rest := fun rest heq => h '/' (by simp [heq]) rfl
  cases a with
  | doubleRoot => exact absurd rfl ha
  | here =>
      change Anchor.split cs = (.here, cs)
      unfold Anchor.split
      split
      case h_1 => exact absurd rfl (hhead _)
      case h_2 => exact absurd rfl (hhead _)
      case h_3 => exact absurd rfl (hhead _)
      case h_4 => rfl
  | root =>
      change Anchor.split ('/' :: cs) = (.root, cs)
      unfold Anchor.split
      split
      case h_1 heq => exact absurd (List.cons.inj heq).2 (hhead _)
      case h_2 heq => exact absurd (List.cons.inj heq).2 (hhead _)
      case h_3 heq => rw [(List.cons.inj heq).2]
      case h_4 hno => exact absurd rfl (hno cs)

section

variable {p r : Path}

theorem IsPlain.head?_joined (h : p.IsPlain) : ∀ c ∈ (joined p.names).head?, c ≠ '/' := by
  by_cases hne : p.names = []
  case pos => simp [hne]
  case neg =>
    obtain ⟨c, cs, hjoined, hc⟩ := exists_joined_cons hne h.names
    simpa [hjoined] using hc

/-- A plain path is read from its text, also with slashes behind it. -/
theorem IsPlain.ofText_eq {t : String} (h : p.IsPlain) {more : List Char}
    (hmore : more = [] ∨ more = ['/'] ∧ p.names ≠ [])
    (ht : t.toList = p.anchor.text.toList ++ (joined p.names ++ more)) : ofText t = p := by
  have hfilter : p.names.filter isName = p.names :=
    List.filter_eq_self.mpr fun n hn => (h.names n hn).1.1
  have hslash : ∀ n ∈ p.names, '/' ∉ n.toList := fun n hn => (h.names n hn).2
  have hhead : ∀ c ∈ (joined p.names ++ more).head?, c ≠ '/' := by
    rcases hmore with rfl | ⟨rfl, hne⟩
    · simpa using h.head?_joined
    · obtain ⟨c, cs, hjoined, hc⟩ := exists_joined_cons hne h.names
      simpa [hjoined] using hc
  -- the names that are read say something, or nothing was written
  have hnames : ((Text.pieces '/' (joined p.names ++ more)).map String.ofList).filter isName =
      p.names := by
    by_cases hne : p.names = []
    case pos =>
      obtain rfl : more = [] := hmore.resolve_right fun hslash => hslash.2 hne
      rw [hne]
      rfl
    case neg =>
      have hchars : (p.names.map String.toList).map String.ofList = p.names := by
        simp
      rcases hmore with rfl | ⟨rfl, -⟩
      · rw [List.append_nil, pieces_joined hne hslash, hchars, hfilter]
      · have hended : joined p.names ++ ['/'] = joined (p.names ++ [""]) := by
          rw [joined_append p.names (List.cons_ne_nil "" []), slashed_eq hne]
          simp
        have hslash' : ∀ n ∈ p.names ++ [""], '/' ∉ n.toList := by
          simpa [or_imp, forall_and] using hslash
        rw [hended, pieces_joined (by simp) hslash', List.map_append, List.map_append, hchars,
          List.filter_append, hfilter]
        simp [isName]
  have hasWritten : asWritten t =
      ⟨p.anchor, (Text.pieces '/' (joined p.names ++ more)).map String.ofList⟩ := by
    rw [asWritten, ht, split_anchor h.anchor hhead]
  rw [ofText, hasWritten, normal]
  dsimp only
  rw [hnames]

/-- A plain path comes back from its text. -/
theorem IsPlain.ofText_text (h : p.IsPlain) : ofText p.text = p := by
  by_cases hne : p = ⟨.here, []⟩
  case pos =>
    rw [hne]
    rfl
  case neg => exact h.ofText_eq (.inl rfl) (by rw [toList_text hne, List.append_nil])

/-! ## Texts that begin alike -/

/-- The path leads to the place below the other one by names alone. -/
def IsAbove (r p : Path) : Prop :=
  r.anchor = p.anchor ∧ ∃ n rest, p.names = r.names ++ n :: rest

/-- The text of the path ends inside a name of the other one, or with its last name. -/
def EndsInside (r p : Path) : Prop :=
  r.anchor = p.anchor ∧ ∃ above m n rest, r.names = above ++ [m] ∧ p.names = above ++ n :: rest ∧
    m.toList <+: n.toList ∧ (m = n → rest = [])

/-- What begins the text of every path below this one: its own text, ended with a slash. -/
def front (r : Path) : List Char :=
  r.anchor.text.toList ++ slashed r.names

/-- Up to the first slash two texts that begin alike are the same. -/
theorem append_slash_prefix_iff {as bs cs ds : List Char} (ha : '/' ∉ as) (hb : '/' ∉ bs) :
    as ++ '/' :: cs <+: bs ++ '/' :: ds ↔ as = bs ∧ cs <+: ds := by
  constructor
  · rintro ⟨more, hmore⟩
    rw [List.append_assoc, List.cons_append] at hmore
    have hpieces := congrArg (Text.pieces '/') hmore
    rw [Text.pieces_append_cons ha, Text.pieces_append_cons hb] at hpieces
    obtain rfl := (List.cons.inj hpieces).1
    exact ⟨rfl, more, (List.cons.inj (List.append_cancel_left hmore)).2⟩
  · rintro ⟨rfl, more, rfl⟩
    exact ⟨more, by simp⟩

/-- A text without slashes begins names in a row exactly if it begins the first one. -/
theorem prefix_joined_iff {cs : List Char} (h : '/' ∉ cs) (n : String) (rest : List String) :
    cs <+: joined (n :: rest) ↔ cs <+: n.toList := by
  cases rest with
  | nil => rw [joined_singleton]
  | cons m rest =>
      rw [joined_cons (List.cons_ne_nil m rest)]
      constructor
      · intro hprefix
        by_cases hlength : cs.length ≤ n.toList.length
        case pos => exact List.prefix_of_prefix_length_le hprefix (List.prefix_append _ _) hlength
        case neg =>
          -- a longer text would hold the slash behind the name
          have hslash : n.toList ++ ['/'] <+: cs :=
            List.prefix_of_prefix_length_le ⟨joined (m :: rest), by simp⟩ hprefix (by
              rw [List.length_append, List.length_singleton]
              omega)
          exact absurd (hslash.subset (by simp)) h
      · intro hprefix
        exact hprefix.trans (List.prefix_append _ _)

/-- Names with their slashes begin a row of names exactly if they are the first ones of it,
and not all. -/
theorem slashed_prefix_iff {names ps : List String} (hnames : ∀ n ∈ names, '/' ∉ n.toList)
    (hps : ∀ n ∈ ps, '/' ∉ n.toList) (hne : ps ≠ []) :
    slashed names <+: joined ps ↔ ∃ n rest, ps = names ++ n :: rest := by
  induction names generalizing ps with
  | nil =>
      obtain ⟨n, rest, rfl⟩ := List.exists_cons_of_ne_nil hne
      exact iff_of_true List.nil_prefix ⟨n, rest, rfl⟩
  | cons m names ih =>
      obtain ⟨hm, hmore⟩ := List.forall_mem_cons.mp hnames
      obtain ⟨n, rest, rfl⟩ := List.exists_cons_of_ne_nil hne
      obtain ⟨hn, hrest⟩ := List.forall_mem_cons.mp hps
      rw [slashed_cons]
      cases rest with
      | nil =>
          -- there is no slash in a single name
          rw [joined_singleton]
          refine iff_of_false (fun hprefix => hn ?_) (by simp)
          exact hprefix.subset (by simp)
      | cons k rest =>
          rw [joined_cons (List.cons_ne_nil k rest), append_slash_prefix_iff hm hn,
            ih hmore hrest (List.cons_ne_nil k rest), String.toList_inj]
          simp [eq_comm]

/-- Texts that begin alike begin in the same place. -/
theorem anchored_prefix_iff {a b : Anchor} (ha : a ≠ .doubleRoot) (hb : b ≠ .doubleRoot)
    {cs ds : List Char} (hcs : ∃ c rest, cs = c :: rest ∧ c ≠ '/')
    (hds : ∀ c ∈ ds.head?, c ≠ '/') :
    a.text.toList ++ cs <+: b.text.toList ++ ds ↔ a = b ∧ cs <+: ds := by
  obtain ⟨c, rest, rfl, hc⟩ := hcs
  cases a with
  | doubleRoot => exact absurd rfl ha
  | here =>
      cases b with
      | doubleRoot => exact absurd rfl hb
      | here => simp [Anchor.text]
      | root => simp [Anchor.text, hc]
  | root =>
      cases b with
      | doubleRoot => exact absurd rfl hb
      | root => simp [Anchor.text]
      | here =>
          cases ds with
          | nil => simp [Anchor.text]
          | cons d ds =>
              have hd : '/' ≠ d := fun heq => hds d rfl heq.symm
              simp [Anchor.text, hd]

/-- Names in a row begin others exactly if they are the first ones of them up to the last
one, whose text begins that of the name in its place. -/
theorem joined_prefix_iff {above ps : List String} {m : String}
    (hnames : ∀ n ∈ above ++ [m], '/' ∉ n.toList) (hps : ∀ n ∈ ps, '/' ∉ n.toList)
    (hne : ps ≠ []) :
    joined (above ++ [m]) <+: joined ps ↔
      ∃ n rest, ps = above ++ n :: rest ∧ m.toList <+: n.toList := by
  obtain ⟨habove, hm⟩ := List.forall_mem_append.mp hnames
  have hcut : joined (above ++ [m]) = slashed above ++ m.toList := by
    rw [joined_append above (List.cons_ne_nil m []), joined_singleton]
  have hlast : ∀ n rest, slashed above ++ m.toList <+: joined (above ++ n :: rest) ↔
      m.toList <+: n.toList := by
    intro n rest
    rw [joined_append above (List.cons_ne_nil n rest), List.prefix_append_right_inj,
      prefix_joined_iff (hm m List.mem_cons_self)]
  rw [hcut]
  constructor
  · intro hprefix
    obtain ⟨n, rest, rfl⟩ := (slashed_prefix_iff habove hps hne).mp
      ((List.prefix_append _ _).trans hprefix)
    exact ⟨n, rest, rfl, (hlast n rest).mp hprefix⟩
  · rintro ⟨n, rest, rfl, hmn⟩
    exact (hlast n rest).mpr hmn

section

variable (hr : r.IsPlain) (hp : p.IsPlain) (hne : p.names ≠ [])

include hr hp hne

/-- The text of a path begins with that of another one and a slash exactly if it leads
below that one. -/
theorem front_prefix_iff (hrne : r ≠ ⟨.here, []⟩) :
    front r <+: p.text.toList ↔ IsAbove r p := by
  have hpne : p ≠ ⟨.here, []⟩ := fun heq => hne (by rw [heq])
  rw [toList_text hpne, front]
  by_cases hnames : r.names = []
  case pos =>
    have hroot : r.anchor = .root := by
      cases hanchor : r.anchor with
      | root => rfl
      | doubleRoot => exact absurd hanchor hr.anchor
      | here => exact absurd (congrArg₂ Path.mk hanchor hnames) hrne
    obtain ⟨n, rest, hn⟩ := List.exists_cons_of_ne_nil hne
    rw [IsAbove, hroot, hnames, slashed_nil, List.append_nil]
    cases hanchor : p.anchor with
    | doubleRoot => exact absurd hanchor hp.anchor
    | root => exact iff_of_true (List.prefix_append _ _) ⟨rfl, n, rest, hn⟩
    | here =>
        refine iff_of_false (fun hprefix => ?_) (by simp)
        obtain ⟨more, hmore⟩ := hprefix
        exact hp.head?_joined '/' (by simp [Anchor.text] at hmore; simp [← hmore]) rfl
  case neg =>
    have hfirst : ∃ c rest, slashed r.names = c :: rest ∧ c ≠ '/' := by
      obtain ⟨c, cs, hjoined, hc⟩ := exists_joined_cons hnames hr.names
      exact ⟨c, cs ++ ['/'], by rw [slashed_eq hnames, hjoined]; rfl, hc⟩
    rw [anchored_prefix_iff hr.anchor hp.anchor hfirst hp.head?_joined,
      slashed_prefix_iff (fun n hn => (hr.names n hn).2) (fun n hn => (hp.names n hn).2) hne]
    exact Iff.rfl

/-- The text of a path begins with that of another one exactly if it leads below that one,
or if that one ends inside a name of it. -/
theorem text_prefix_iff (hrne : r.names ≠ []) :
    r.text.toList <+: p.text.toList ↔ IsAbove r p ∨ EndsInside r p := by
  obtain ⟨above, m, hm⟩ : ∃ above m, r.names = above ++ [m] := by
    obtain ⟨above, m, hm⟩ := (List.eq_nil_or_concat r.names).resolve_left hrne
    exact ⟨above, m, by simpa using hm⟩
  have hslash : ∀ n ∈ above ++ [m], '/' ∉ n.toList := by
    rw [← hm]
    exact fun n hn => (hr.names n hn).2
  rw [toList_text (fun heq => hrne (by rw [heq])), toList_text (fun heq => hne (by rw [heq])),
    anchored_prefix_iff hr.anchor hp.anchor (exists_joined_cons hrne hr.names) hp.head?_joined, hm,
    joined_prefix_iff hslash (fun n hn => (hp.names n hn).2) hne]
  constructor
  · rintro ⟨hanchor, n, rest, hnames, hmn⟩
    by_cases hinside : m = n → rest = []
    case pos => exact .inr ⟨hanchor, above, m, n, rest, hm, hnames, hmn, hinside⟩
    case neg =>
      obtain ⟨rfl, hrest⟩ := Classical.not_imp.mp hinside
      obtain ⟨k, rest, rfl⟩ := List.exists_cons_of_ne_nil hrest
      exact .inl ⟨hanchor, k, rest, by rw [hnames, hm]; simp⟩
  · rintro (⟨hanchor, n, rest, hnames⟩ | ⟨hanchor, above', m', n, rest, hm', hnames, hmn, -⟩)
    · exact ⟨hanchor, m, n :: rest, by rw [hnames, hm]; simp, List.prefix_refl _⟩
    · rw [hm] at hm'
      obtain ⟨rfl, rfl⟩ := List.append_singleton_inj.mp hm'
      exact ⟨hanchor, n, rest, hnames, hmn⟩

end

/-- The text of a path below another one is what that one begins, and the remaining names. -/
theorem toList_text_below {n : String} {rest : List String} (hanchor : r.anchor = p.anchor)
    (hnames : p.names = r.names ++ n :: rest) :
    p.text.toList = front r ++ joined (n :: rest) := by
  rw [toList_text (fun heq => by simp [heq] at hnames), hnames,
    joined_append r.names (List.cons_ne_nil n rest), front, hanchor, List.append_assoc]

end

end JavaAtlas.Storage.Path
