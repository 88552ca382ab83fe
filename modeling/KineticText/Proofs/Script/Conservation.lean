import KineticText.Proofs.Script.Token
import KineticText.Script.Reading
import Mathlib.Data.List.Forall2
import Mathlib.Logic.Basic
import Mathlib.Tactic.Common

/-!
# What becomes of words and tags

Every token of a script has one place in what is read: a word goes into the
text of a segment, a tag closes a segment or is reported.  `Conserves` says so
without following the reader, and `read_conserves` is the result.

There are five groups.

* Listing.  `ListsFrom` says that a list holds what a relation gives to the
  places from a start on; it is built from right to left, one place a step.
* The fate of a tag.  A tag that is accepted closes the words behind the last
  accepted tag (`FollowsWord`) or is an orphan.
* The reader at a place.  `ReadsAt` relates the open words to the tokens read
  so far, with one lemma for each step.
* What is read: the words, the tags, the diagnostics, the numbering and the
  untagged segment, each by induction on the tokens that are left.
* The assembly.
-/

namespace KineticText

/-! ## Listing -/

/-- The list holds, in order, one item for each place from `start` on that has
one. -/
def ListsFrom {α : Type} (start : ℕ) (P : ℕ → α → Prop) (xs : List α) : Prop :=
  ∃ places : List ℕ, places.Pairwise (· < ·) ∧ List.Forall₂ P places xs ∧
    ∀ i, i ∈ places ↔ start ≤ i ∧ ∃ x, P i x

section Listing

variable {α : Type} {start : ℕ} {P : ℕ → α → Prop} {xs : List α}

theorem ListsFrom.nil (h : ∀ i, start ≤ i → ∀ x, ¬P i x) : ListsFrom start P [] := by
  refine ⟨[], .nil, .nil, fun i => ?_⟩
  simp only [List.not_mem_nil, false_iff, not_and, not_exists]
  exact h i

theorem ListsFrom.skip (h : ∀ x, ¬P start x) (hxs : ListsFrom (start + 1) P xs) :
    ListsFrom start P xs := by
  obtain ⟨places, hsorted, hitems, hplaces⟩ := hxs
  refine ⟨places, hsorted, hitems, fun i => ?_⟩
  rw [hplaces]
  constructor
  · intro hplace
    obtain ⟨hi, hx⟩ := hplace
    exact ⟨by omega, hx⟩
  · intro hplace
    obtain ⟨hi, x, hx⟩ := hplace
    have hne : i ≠ start := by
      rintro rfl
      exact h x hx
    exact ⟨by omega, x, hx⟩

theorem ListsFrom.cons {x : α} (h : P start x) (hxs : ListsFrom (start + 1) P xs) :
    ListsFrom start P (x :: xs) := by
  obtain ⟨places, hsorted, hitems, hplaces⟩ := hxs
  refine ⟨start :: places, ?_, .cons h hitems, fun i => ?_⟩
  · refine List.pairwise_cons.2 ⟨fun i hi => ?_, hsorted⟩
    have := (hplaces i).1 hi
    omega
  · rw [List.mem_cons, hplaces]
    constructor
    · intro hplace
      rcases hplace with rfl | ⟨hi, hx⟩
      · exact ⟨le_rfl, x, h⟩
      · exact ⟨by omega, hx⟩
    · intro hplace
      obtain ⟨hi, hx⟩ := hplace
      rcases Nat.eq_or_lt_of_le hi with heq | hlt
      · exact .inl heq.symm
      · exact .inr ⟨hlt, hx⟩

theorem ListsFrom.pairwise (hxs : ListsFrom start P xs) :
    xs.Pairwise fun x y => ∃ i j, i < j ∧ P i x ∧ P j y := by
  obtain ⟨places, hsorted, hitems, -⟩ := hxs
  induction hitems with
  | nil => exact .nil
  | @cons i x places xs hx hitems ih =>
    obtain ⟨hfirst, hsorted⟩ := List.pairwise_cons.1 hsorted
    refine List.pairwise_cons.2 ⟨fun y hy => ?_, ih hsorted⟩
    obtain ⟨n, hn, rfl⟩ := List.getElem_of_mem hy
    have hn' : n < places.length := hitems.length_eq ▸ hn
    exact ⟨i, places[n], hfirst _ (List.getElem_mem hn'), hx, hitems.get hn' hn⟩

theorem ListsFrom.exists_of_mem (hxs : ListsFrom start P xs) {x : α} (hx : x ∈ xs) :
    ∃ i, P i x := by
  obtain ⟨places, -, hitems, -⟩ := hxs
  obtain ⟨n, hn, rfl⟩ := List.getElem_of_mem hx
  have hn' : n < places.length := hitems.length_eq ▸ hn
  exact ⟨places[n], hitems.get hn' hn⟩

end Listing

namespace Script

/-! ## The fate of a tag -/

/-- The token at a place is a tag that is accepted. -/
def AcceptedAt (tokens : List Token) (i : ℕ) (t : Tag) : Prop :=
  ∃ raw, tokens[i]? = some (.tag raw) ∧ Tag.read raw = .ok t

/-- There is a word in front of a place, and no accepted tag between them. -/
def FollowsWord (tokens : List Token) (i : ℕ) : Prop :=
  ∃ j < i, (∃ w, tokens[j]? = some (.word w)) ∧
    ∀ k, j < k → k < i → ∀ t, ¬AcceptedAt tokens k t

/-- The token at a place is an accepted tag with words to close. -/
def Closes (tokens : List Token) (i : ℕ) (t : Tag) : Prop :=
  AcceptedAt tokens i t ∧ FollowsWord tokens i

/-- The token at a place is a tag that is reported: it is rejected, or it is
accepted and has no words to close. -/
inductive Diagnosed (tokens : List Token) (i : ℕ) : Diagnostic → Prop where
  | malformed {raw : List Char} {e : TagError} (htoken : tokens[i]? = some (.tag raw))
      (hread : Tag.read raw = .error e) : Diagnosed tokens i (.malformedTag raw i e)
  | orphan {raw : List Char} {t : Tag} (htoken : tokens[i]? = some (.tag raw))
      (hread : Tag.read raw = .ok t) (hword : ¬FollowsWord tokens i) :
      Diagnosed tokens i (.orphanTag raw i)

section Fate

variable {tokens : List Token} {i : ℕ}

theorem not_followsWord_zero (tokens : List Token) : ¬FollowsWord tokens 0 := by
  intro hfollows
  obtain ⟨j, hj, -⟩ := hfollows
  omega

theorem followsWord_succ_of_word {w : List Char} (h : tokens[i]? = some (.word w)) :
    FollowsWord tokens (i + 1) :=
  ⟨i, by omega, ⟨w, h⟩, fun k hik hki => by omega⟩

theorem not_followsWord_succ_of_accepted {t : Tag} (h : AcceptedAt tokens i t) :
    ¬FollowsWord tokens (i + 1) := by
  intro hfollows
  obtain ⟨j, hj, ⟨w, hw⟩, hbetween⟩ := hfollows
  rcases Nat.eq_or_lt_of_le (Nat.le_of_lt_succ hj) with rfl | hlt
  · obtain ⟨raw, hraw, -⟩ := h
    rw [hw] at hraw
    cases hraw
  · exact hbetween i hlt (by omega) t h

/-- A rejected tag is as if it were not there. -/
theorem followsWord_succ_of_rejected {raw : List Char} {e : TagError}
    (h : tokens[i]? = some (.tag raw)) (hread : Tag.read raw = .error e) :
    FollowsWord tokens (i + 1) ↔ FollowsWord tokens i := by
  constructor
  · intro hfollows
    obtain ⟨j, hj, ⟨w, hw⟩, hbetween⟩ := hfollows
    have hne : j ≠ i := by
      rintro rfl
      rw [h] at hw
      cases hw
    exact ⟨j, by omega, ⟨w, hw⟩, fun k hjk hki => hbetween k hjk (by omega)⟩
  · intro hfollows
    obtain ⟨j, hj, hw, hbetween⟩ := hfollows
    refine ⟨j, by omega, hw, fun k hjk hki t => ?_⟩
    rcases Nat.eq_or_lt_of_le (Nat.le_of_lt_succ hki) with rfl | hlt
    · intro haccepted
      obtain ⟨raw', hraw', hok⟩ := haccepted
      rw [h] at hraw'
      cases hraw'
      rw [hread] at hok
      cases hok
    · exact hbetween k hjk hlt t

theorem not_acceptedAt_of_word {w : List Char} (h : tokens[i]? = some (.word w)) (t : Tag) :
    ¬AcceptedAt tokens i t := by
  intro haccepted
  obtain ⟨raw, hraw, -⟩ := haccepted
  rw [h] at hraw
  cases hraw

theorem Diagnosed.exists_tag {d : Diagnostic} (h : Diagnosed tokens i d) :
    ∃ raw, tokens[i]? = some (.tag raw) ∧ d.token = some (String.ofList raw) ∧
      d.tokenIndex = some (i : ℤ) := by
  cases h with
  | @malformed raw _ htoken _ => exact ⟨raw, htoken, rfl, rfl⟩
  | @orphan raw _ htoken _ _ => exact ⟨raw, htoken, rfl, rfl⟩

/-- What is reported about a tag, by how it is read. -/
theorem Diagnosed.cases_of_tag {raw : List Char} {d : Diagnostic}
    (htag : tokens[i]? = some (.tag raw)) (h : Diagnosed tokens i d) :
    (∃ e, Tag.read raw = .error e ∧ d = .malformedTag raw i e) ∨
      (∃ t, Tag.read raw = .ok t) ∧ ¬FollowsWord tokens i ∧ d = .orphanTag raw i := by
  cases h with
  | malformed htoken hread =>
    rw [htag] at htoken
    cases htoken
    exact .inl ⟨_, hread, rfl⟩
  | orphan htoken hread hword =>
    rw [htag] at htoken
    cases htoken
    exact .inr ⟨⟨_, hread⟩, hword, rfl⟩

theorem Closes.not_diagnosed {t : Tag} (h : Closes tokens i t) {d : Diagnostic} :
    ¬Diagnosed tokens i d := by
  obtain ⟨⟨raw, htoken, hread⟩, hword⟩ := h
  intro hd
  rcases hd.cases_of_tag htoken with ⟨e, herror, -⟩ | ⟨-, hword', -⟩
  · rw [hread] at herror
    cases herror
  · exact hword' hword

theorem Diagnosed.unique {d d' : Diagnostic} (h : Diagnosed tokens i d)
    (h' : Diagnosed tokens i d') : d = d' := by
  obtain ⟨raw, htoken, -⟩ := h.exists_tag
  rcases h.cases_of_tag htoken with ⟨e, hread, rfl⟩ | ⟨⟨t, hread⟩, -, rfl⟩
  · rcases h'.cases_of_tag htoken with ⟨e', hread', rfl⟩ | ⟨⟨t', hread'⟩, -, -⟩
    · rw [hread] at hread'
      cases hread'
      rfl
    · rw [hread] at hread'
      cases hread'
  · rcases h'.cases_of_tag htoken with ⟨e', hread', -⟩ | ⟨-, -, rfl⟩
    · rw [hread] at hread'
      cases hread'
    · rfl

theorem xor_closes_diagnosed {raw : List Char} (h : tokens[i]? = some (.tag raw)) :
    Xor (∃ t, Closes tokens i t) (∃! d, Diagnosed tokens i d) := by
  have hreported {d : Diagnostic} (hd : Diagnosed tokens i d) :
      Xor (∃ t, Closes tokens i t) (∃! d, Diagnosed tokens i d) :=
    .inr ⟨⟨d, hd, fun d' hd' => hd'.unique hd⟩, fun ⟨_, ht⟩ => ht.not_diagnosed hd⟩
  cases hread : Tag.read raw with
  | error e => exact hreported (.malformed h hread)
  | ok t =>
    by_cases hword : FollowsWord tokens i
    · have hcloses : Closes tokens i t := ⟨⟨raw, h, hread⟩, hword⟩
      exact .inl ⟨⟨t, hcloses⟩, fun ⟨_, hd, _⟩ => hcloses.not_diagnosed hd⟩
    · exact hreported (.orphan h hread hword)

end Fate

/-! ## The reader at a place -/

/-- The reader in front of a place: the tokens that are left stand there, and
words are open if one of them would be closed by a tag at this place. -/
structure ReadsAt (tokens : List Token) (i : ℕ) (group : List (List Char))
    (rest : List Token) : Prop where
  drop_eq : tokens.drop i = rest
  group_iff : group ≠ [] ↔ FollowsWord tokens i

namespace ReadsAt

variable {tokens rest : List Token} {token : Token} {i : ℕ} {group : List (List Char)}

theorem start (tokens : List Token) : ReadsAt tokens 0 [] tokens where
  drop_eq := List.drop_zero
  group_iff := by simp [not_followsWord_zero]

theorem getElem?_eq (h : ReadsAt tokens i group (token :: rest)) : tokens[i]? = some token := by
  have hhead := congrArg List.head? h.drop_eq
  rwa [List.head?_drop] at hhead

theorem drop_succ (h : ReadsAt tokens i group (token :: rest)) : tokens.drop (i + 1) = rest := by
  rw [← List.tail_drop, h.drop_eq]
  rfl

theorem getElem?_eq_none (h : ReadsAt tokens i group []) {k : ℕ} (hk : i ≤ k) :
    tokens[k]? = none :=
  List.getElem?_eq_none ((List.drop_eq_nil_iff.1 h.drop_eq).trans hk)

theorem word {w : List Char} (h : ReadsAt tokens i group (.word w :: rest)) :
    ReadsAt tokens (i + 1) (group ++ [w]) rest where
  drop_eq := h.drop_succ
  group_iff := by simp [followsWord_succ_of_word h.getElem?_eq]

theorem rejected {raw : List Char} {e : TagError} (h : ReadsAt tokens i group (.tag raw :: rest))
    (hread : Tag.read raw = .error e) : ReadsAt tokens (i + 1) group rest where
  drop_eq := h.drop_succ
  group_iff := h.group_iff.trans (followsWord_succ_of_rejected h.getElem?_eq hread).symm

theorem accepted {raw : List Char} {t : Tag} (h : ReadsAt tokens i group (.tag raw :: rest))
    (hread : Tag.read raw = .ok t) : ReadsAt tokens (i + 1) [] rest where
  drop_eq := h.drop_succ
  group_iff := by simp [not_followsWord_succ_of_accepted ⟨raw, h.getElem?_eq, hread⟩]

end ReadsAt

/-! ## What is read -/

section Reading

variable {tokens : List Token} {i count : ℕ} {group : List (List Char)} {rest : List Token}

theorem words_segmentOf (hgroup : ∀ w ∈ group, IsWord w) (tag : Option Tag) (index : ℕ) :
    Text.words (segmentOf group tag index).text = group :=
  Token.words_unwords hgroup

/-- The open words and those that are left are the words of the segments. -/
theorem words_ofTokensFrom (hgroup : ∀ w ∈ group, IsWord w)
    (hrest : ∀ w, Token.word w ∈ rest → IsWord w) :
    (ofTokensFrom i count group rest).segments.flatMap (fun s => Text.words s.text) =
      group ++ rest.filterMap Token.word? := by
  fun_induction ofTokensFrom i count group rest with
  | case1 i count group =>
    split_ifs with hempty
    · simp [List.isEmpty_iff.1 hempty]
    · simp [words_segmentOf hgroup]
  | case2 i count group w rest ih =>
    have hw : IsWord w := hrest w (by simp)
    rw [ih ?_ fun v hv => hrest v (by simp [hv])]
    · simp [Token.word?]
    · intro v hv
      rcases List.mem_append.1 hv with hv | hv
      · exact hgroup v hv
      · rwa [List.mem_singleton.1 hv]
  | case3 i count group raw rest e hread script ih =>
    rw [List.filterMap_cons_none (by rfl)]
    exact ih hgroup fun v hv => hrest v (by simp [hv])
  | case4 i count group raw rest t hread hempty script ih =>
    rw [List.filterMap_cons_none (by rfl)]
    exact ih hgroup fun v hv => hrest v (by simp [hv])
  | case5 i count group raw rest t hread hempty script ih =>
    have htail := ih (by simp) fun v hv => hrest v (by simp [hv])
    rw [List.filterMap_cons_none (by rfl), List.flatMap_cons, words_segmentOf hgroup, htail,
      List.nil_append]

theorem tags_ofTokensFrom (h : ReadsAt tokens i group rest) :
    ListsFrom i (Closes tokens)
      ((ofTokensFrom i count group rest).segments.filterMap Segment.tag) := by
  fun_induction ofTokensFrom i count group rest with
  | case1 i count group =>
    have hnone : (if group.isEmpty then [] else [segmentOf group none count]).filterMap
        Segment.tag = [] := by
      split_ifs <;> rfl
    rw [hnone]
    refine .nil fun k hk t ⟨⟨raw, hraw, _⟩, _⟩ => ?_
    simp [h.getElem?_eq_none hk] at hraw
  | case2 i count group w rest ih =>
    exact .skip (fun t ht => not_acceptedAt_of_word h.getElem?_eq t ht.1) (ih h.word)
  | case3 i count group raw rest e hread script ih =>
    refine .skip (fun t ⟨⟨raw', hraw', hok⟩, _⟩ => ?_) (ih (h.rejected hread))
    rw [h.getElem?_eq] at hraw'
    cases hraw'
    rw [hread] at hok
    cases hok
  | case4 i count group raw rest t hread hempty script ih =>
    obtain rfl := List.isEmpty_iff.1 hempty
    exact .skip (fun t ht => h.group_iff.2 ht.2 rfl) (ih (h.accepted hread))
  | case5 i count group raw rest t hread hempty script ih =>
    have hword : FollowsWord tokens i := h.group_iff.1 (mt List.isEmpty_iff.2 hempty)
    exact .cons ⟨⟨raw, h.getElem?_eq, hread⟩, hword⟩ (ih (h.accepted hread))

theorem diagnostics_ofTokensFrom (h : ReadsAt tokens i group rest) :
    ListsFrom i (Diagnosed tokens) (ofTokensFrom i count group rest).diagnostics := by
  fun_induction ofTokensFrom i count group rest with
  | case1 i count group =>
    refine .nil fun k hk d hd => ?_
    obtain ⟨raw, hraw, -⟩ := hd.exists_tag
    simp [h.getElem?_eq_none hk] at hraw
  | case2 i count group w rest ih =>
    refine .skip (fun d hd => ?_) (ih h.word)
    obtain ⟨raw, hraw, -⟩ := hd.exists_tag
    rw [h.getElem?_eq] at hraw
    cases hraw
  | case3 i count group raw rest e hread script ih =>
    exact .cons (.malformed h.getElem?_eq hread) (ih (h.rejected hread))
  | case4 i count group raw rest t hread hempty script ih =>
    obtain rfl := List.isEmpty_iff.1 hempty
    have hword : ¬FollowsWord tokens i := fun hfollows => h.group_iff.2 hfollows rfl
    exact .cons (.orphan h.getElem?_eq hread hword) (ih (h.accepted hread))
  | case5 i count group raw rest t hread hempty script ih =>
    have hword : FollowsWord tokens i := h.group_iff.1 (mt List.isEmpty_iff.2 hempty)
    have hcloses : Closes tokens i t := ⟨⟨raw, h.getElem?_eq, hread⟩, hword⟩
    exact .skip (fun d => hcloses.not_diagnosed) (ih (h.accepted hread))

theorem index_ofTokensFrom (i count : ℕ) (group : List (List Char)) (rest : List Token) :
    (ofTokensFrom i count group rest).segments.map Segment.index =
      List.range' count (ofTokensFrom i count group rest).segments.length := by
  fun_induction ofTokensFrom i count group rest with
  | case1 i count group => split_ifs <;> rfl
  | case2 i count group w rest ih => exact ih
  | case3 i count group raw rest e hread script ih => exact ih
  | case4 i count group raw rest t hread hempty script ih => exact ih
  | case5 i count group raw rest t hread hempty script ih =>
    rw [List.map_cons, ih]
    rfl

theorem isTagged_ofTokensFrom (i count : ℕ) (group : List (List Char)) (rest : List Token) :
    ∀ s ∈ (ofTokensFrom i count group rest).segments.dropLast, s.isTagged = true := by
  fun_induction ofTokensFrom i count group rest with
  | case1 i count group => split_ifs <;> simp
  | case2 i count group w rest ih => exact ih
  | case3 i count group raw rest e hread script ih => exact ih
  | case4 i count group raw rest t hread hempty script ih => exact ih
  | case5 i count group raw rest t hread hempty script ih =>
    intro s hs
    cases hsegments : script.segments with
    | nil => simp [hsegments] at hs
    | cons s' segments =>
      rw [hsegments, List.dropLast_cons_cons, List.mem_cons] at hs
      rcases hs with rfl | hs
      · rfl
      · rw [← hsegments] at hs
        exact ih s hs

end Reading

/-! ## The assembly -/

/-- What is read keeps the words and the tags of the tokens, each at one
place. -/
structure Conserves (tokens : List Token) (script : Script) : Prop where
  /-- The words of the segments are the words of the script, in order. -/
  words : script.segments.flatMap (fun s => Text.words s.text) = tokens.filterMap Token.word?
  /-- The tags of the segments are the accepted tags with words to close, in
  order. -/
  tags : ListsFrom 0 (Closes tokens) (script.segments.filterMap Segment.tag)
  /-- The diagnostics are about the rejected tags, and the accepted ones
  without words to close, in order. -/
  diagnostics : ListsFrom 0 (Diagnosed tokens) script.diagnostics
  /-- Each tag is the tag of a segment or has one diagnostic, and not both. -/
  xor : ∀ i raw, tokens[i]? = some (.tag raw) →
    Xor (∃ t, Closes tokens i t) (∃! d, Diagnosed tokens i d)
  /-- The token at the place of a diagnostic is the tag it shows. -/
  located : ∀ d ∈ script.diagnostics, ∃ (i : ℕ) (raw : List Char),
    d.tokenIndex = some (i : ℤ) ∧ tokens[i]? = some (.tag raw) ∧ d.token = some (String.ofList raw)
  /-- Diagnostics are in the order of their tokens. -/
  sorted : script.diagnostics.Pairwise fun d d' => ∃ i j : ℤ,
    d.tokenIndex = some i ∧ d'.tokenIndex = some j ∧ i < j
  /-- Segments are numbered from zero. -/
  indices : script.segments.map Segment.index = List.range script.segments.length
  /-- Only the last segment may have no tag. -/
  tagged : ∀ s ∈ script.segments.dropLast, s.isTagged = true

/-- Reading a text loses no word and no tag, doubles none and keeps their
order. -/
theorem read_conserves (s : List Char) : Conserves (Token.scan s) (read s) where
  words := words_ofTokensFrom (by simp) fun _ => Token.isWord_of_mem_scan
  tags := tags_ofTokensFrom (.start _)
  diagnostics := diagnostics_ofTokensFrom (.start _)
  xor _ _ := xor_closes_diagnosed
  located d hd := by
    obtain ⟨i, hi⟩ := (diagnostics_ofTokensFrom (.start _)).exists_of_mem hd
    obtain ⟨raw, htoken, hraw, hindex⟩ := hi.exists_tag
    exact ⟨i, raw, hindex, htoken, hraw⟩
  sorted := by
    have hlist : ListsFrom 0 (Diagnosed (Token.scan s)) (read s).diagnostics :=
      diagnostics_ofTokensFrom (.start _)
    refine hlist.pairwise.imp fun ⟨i, j, hij, hi, hj⟩ => ?_
    obtain ⟨-, -, -, hindex⟩ := hi.exists_tag
    obtain ⟨-, -, -, hindex'⟩ := hj.exists_tag
    exact ⟨i, j, hindex, hindex', by omega⟩
  indices := by
    rw [List.range_eq_range']
    exact index_ofTokensFrom ..
  tagged := isTagged_ofTokensFrom 0 0 [] (Token.scan s)

end Script

end KineticText
