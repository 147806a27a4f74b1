import HolderDaemon.OAuthAttempts
import HolderDaemon.RunnerRegistry

/-!
Values on their way from the command line to a repository: `url_encode_component`
(`cli/commands/Support.cpp`) writes them into a request target, `query_param_value`
(`api/support/HttpQuery.h`) looks them up for a route, which passes them on
(`api/routes/SearchRoutes.cpp`, `api/routes/CardRoutes.cpp`).
-/

set_option autoImplicit false

open Bytes

namespace HolderDaemon

namespace QueryValues

open GoogleDriveOAuth Runners

/-! The command line -/

/-- A letter, a digit or one of `-_.~`. -/
def isSafe (b : UInt8) : Bool :=
  (65 ≤ b && b ≤ 90) || (97 ≤ b && b ≤ 122) || (48 ≤ b && b ≤ 57) ||
    b = 45 || b = 95 || b = 46 || b = 126

def upperHexDigit (n : Nat) : UInt8 := UInt8.ofNat (if n < 10 then 48 + n else 55 + n)

def urlEncodeByte (b : UInt8) : Bytes :=
  if isSafe b then [b] else [37, upperHexDigit (b.toNat / 16), upperHexDigit (b.toNat % 16)]

def urlEncodeComponent (value : Bytes) : Bytes := value.flatMap urlEncodeByte

/-- What stands after the question mark: keys and texts. -/
def queryString : List (Bytes × Bytes) → Bytes
  | [] => []
  | [(key, text)] => key ++ 61 :: text
  | (key, text) :: p :: ps => key ++ 61 :: (text ++ 38 :: queryString (p :: ps))

/-- `holderctl search`. -/
def searchQuery (projectId query : Bytes) (limit : Nat) : Bytes :=
  queryString [(ascii "project_id", urlEncodeComponent projectId),
    (ascii "q", urlEncodeComponent query), (ascii "limit", decimal limit)]

/-- `holderctl tags` with a tag. -/
def tagQuery (projectId tag : Bytes) : Bytes :=
  queryString [(ascii "project_id", urlEncodeComponent projectId),
    (ascii "tag", urlEncodeComponent tag)]

/-! The routes -/

/-- `std::stoi`: blanks, a sign and digits; what follows them is not looked at. -/
def stoi (s : Bytes) : Option Int :=
  let t := s.dropWhile isSpace
  let negative := t.head? = some 45
  let digits := (if negative ∨ t.head? = some 43 then t.drop 1 else t).takeWhile isDigit
  let value : Int := if negative then -decimalValue digits else decimalValue digits
  if digits = [] ∨ ¬ (-2 ^ 31 ≤ value ∧ value < 2 ^ 31) then none else some value

inductive SearchCall where
  | unavailable
  | invalidLimit
  | missing
  | search (projectId query : Bytes) (limit offset : Int)
  deriving DecidableEq

def numberParam (query : Bytes) (key : String) (default : Int) : Option Int :=
  let raw := queryParamValue query (ascii key)
  if raw = [] then some default else stoi raw

/-- GET /search/cards up to its call of `search_cards`. -/
def handleSearchCards (fts : Bool) (query : Bytes) : SearchCall :=
  if !fts then .unavailable
  else
    match numberParam query "limit" 20, numberParam query "offset" 0 with
    | some limit, some offset =>
      let projectId := queryParamValue query (ascii "project_id")
      let q := queryParamValue query (ascii "q")
      if projectId = [] ∨ q = [] then .missing else .search projectId q limit offset
    | _, _ => .invalidLimit

inductive CardsCall where
  | missing
  | withTag (projectId tag : Bytes)
  | withoutTag (projectId : Bytes)
  deriving DecidableEq

/-- GET /cards up to its call of `list_card_ids_with_tag`. -/
def handleCards (query : Bytes) : CardsCall :=
  let projectId := queryParamValue query (ascii "project_id")
  let tag := queryParamValue query (ascii "tag")
  if projectId = [] then .missing
  else if tag ≠ [] then .withTag projectId tag
  else .withoutTag projectId

/-! Encoded values -/

theorem urlEncodeByte_length (b : UInt8) :
    (urlEncodeByte b).length = if isSafe b then 1 else 3 := by
  unfold urlEncodeByte
  split <;> rfl

/-- Every byte that is not safe grows. -/
theorem urlEncodeComponent_eq_iff {value : Bytes} :
    urlEncodeComponent value = value ↔ value.all isSafe = true := by
  induction value with
  | nil => simp [urlEncodeComponent]
  | cons b value ih =>
    have hgrow : ∀ s : Bytes, s.length ≤ (urlEncodeComponent s).length := by
      intro s
      induction s with
      | nil => simp
      | cons c s ihs =>
        rw [urlEncodeComponent, List.flatMap_cons, List.length_append, urlEncodeByte_length,
          List.length_cons, ← urlEncodeComponent]
        split <;> omega
    rw [urlEncodeComponent, List.flatMap_cons, ← urlEncodeComponent, List.all_cons,
      Bool.and_eq_true, ← ih]
    by_cases hsafe : isSafe b = true
    · rw [urlEncodeByte, if_pos hsafe]
      simp [hsafe]
    · refine ⟨fun h => ?_, fun h => absurd h.1 hsafe⟩
      have hlen := congrArg List.length h
      rw [List.length_append, urlEncodeByte_length, if_neg hsafe, List.length_cons] at hlen
      have hle := hgrow value
      omega

theorem urlEncodeComponent_ne_nil {value : Bytes} (h : value ≠ []) :
    urlEncodeComponent value ≠ [] := by
  obtain ⟨b, value, rfl⟩ := List.exists_cons_of_ne_nil h
  intro hnil
  have hb := (List.append_eq_nil_iff.mp hnil).1
  unfold urlEncodeByte at hb
  split at hb <;> cases hb

/-- Neither `=` nor `&`. -/
def Plain (s : Bytes) : Prop := 61 ∉ s ∧ 38 ∉ s

instance (s : Bytes) : Decidable (Plain s) := instDecidableAnd

theorem plain_urlEncodeComponent (value : Bytes) : Plain (urlEncodeComponent value) := by
  have hdigit : ∀ n, n < 16 → upperHexDigit n ≠ 61 ∧ upperHexDigit n ≠ 38 := by decide
  have hbyte : ∀ b, ∀ c ∈ urlEncodeByte b, c ≠ 61 ∧ c ≠ 38 := by
    intro b c hc
    have hlt := b.toNat_lt
    unfold urlEncodeByte at hc
    split at hc
    · rename_i hsafe
      rw [List.mem_singleton.mp hc]
      constructor
      · rintro rfl
        exact absurd hsafe (by decide)
      · rintro rfl
        exact absurd hsafe (by decide)
    · simp only [List.mem_cons, List.not_mem_nil, or_false] at hc
      rcases hc with rfl | rfl | rfl
      · decide
      · exact hdigit _ (by omega)
      · exact hdigit _ (by omega)
  constructor
  · intro h
    obtain ⟨b, -, hb⟩ := List.mem_flatMap.mp h
    exact (hbyte b _ hb).1 rfl
  · intro h
    obtain ⟨b, -, hb⟩ := List.mem_flatMap.mp h
    exact (hbyte b _ hb).2 rfl

/-! The lookup -/

/-- The needle ends at the first `=`. -/
theorem isPrefixOf_key {key s rest : Bytes} (hkey : 61 ∉ key) (hs : 61 ∉ s) :
    (key ++ [61]).isPrefixOf (s ++ 61 :: rest) = true ↔ key = s := by
  rw [List.isPrefixOf_iff_prefix]
  constructor
  · rintro ⟨more, hmore⟩
    rw [List.append_assoc, List.singleton_append] at hmore
    induction key generalizing s with
    | nil =>
      cases s with
      | nil => rfl
      | cons b s =>
        have hb := (List.cons.inj hmore).1
        exact absurd (hb ▸ List.mem_cons_self) hs
    | cons a key ih =>
      cases s with
      | nil =>
        have ha := (List.cons.inj hmore).1
        exact absurd (ha ▸ List.mem_cons_self) hkey
      | cons b s =>
        obtain ⟨rfl, htail⟩ := List.cons.inj hmore
        rw [ih (fun h => hkey (List.mem_cons_of_mem _ h)) (fun h => hs (List.mem_cons_of_mem _ h))
          htail]
  · rintro rfl
    exact ⟨rest, by simp⟩

/-- The first key that ends as the one that is looked up is taken for it. -/
theorem afterFirst_key {key s : Bytes} (rest : Bytes) (hne : key ≠ []) (hkey : 61 ∉ key)
    (hs : 61 ∉ s) :
    afterFirst (key ++ [61]) (s ++ 61 :: rest) =
      if key <:+ s then some rest else afterFirst (key ++ [61]) rest := by
  induction s with
  | nil =>
    have hnot : ¬ (key ++ [61]).isPrefixOf (61 :: rest) = true := by
      rw [← List.nil_append (61 :: rest), isPrefixOf_key hkey (by simp)]
      exact hne
    rw [List.nil_append, afterFirst, if_neg hnot, if_neg (by simpa using hne)]
  | cons b s ih =>
    have hs' : 61 ∉ s := fun h => hs (List.mem_cons_of_mem _ h)
    rw [List.cons_append, afterFirst, ← List.cons_append]
    by_cases hhere : key = b :: s
    · subst hhere
      rw [if_pos ((isPrefixOf_key hkey hs).mpr rfl), if_pos List.suffix_rfl]
      rw [show (b :: s) ++ 61 :: rest = ((b :: s) ++ [61]) ++ rest by simp, List.drop_left]
    · rw [if_neg fun h => hhere ((isPrefixOf_key hkey hs).mp h), ih hs']
      simp only [List.suffix_cons_iff, hhere, false_or]

/-- There is no key in a text. -/
theorem afterFirst_text {key text : Bytes} (rest : Bytes) (hkey : Plain key) (htext : Plain text) :
    afterFirst (key ++ [61]) (text ++ 38 :: rest) = afterFirst (key ++ [61]) rest := by
  have hnot : ∀ t : Bytes, 61 ∉ t → ¬ (key ++ [61]).isPrefixOf (t ++ 38 :: rest) = true := by
    intro t ht hprefix
    obtain ⟨more, hmore⟩ := List.isPrefixOf_iff_prefix.mp hprefix
    rw [List.append_assoc, List.singleton_append, List.append_eq_append_iff] at hmore
    rcases hmore with ⟨u, rfl, hu⟩ | ⟨u, rfl, hu⟩
    · cases u with
      | nil => exact absurd (List.cons.inj hu).1 (by decide)
      | cons c u =>
        obtain rfl := (List.cons.inj hu).1
        exact ht (by simp)
    · cases u with
      | nil => exact absurd (List.cons.inj hu).1 (by decide)
      | cons c u =>
        obtain rfl := (List.cons.inj hu).1
        exact hkey.2 (by simp)
  induction text with
  | nil =>
    have hstart := hnot [] (by simp)
    rw [List.nil_append] at hstart ⊢
    rw [afterFirst, if_neg hstart]
  | cons b text ih =>
    rw [List.cons_append, afterFirst, ← List.cons_append, if_neg (hnot _ htext.1)]
    exact ih ⟨fun h => htext.1 (List.mem_cons_of_mem _ h),
      fun h => htext.2 (List.mem_cons_of_mem _ h)⟩

/-- The lookup comes past the pairs before the key. -/
theorem afterFirst_queryString {before : List (Bytes × Bytes)} {key : Bytes} (text : Bytes)
    (after : List (Bytes × Bytes)) (hne : key ≠ []) (hkey : Plain key)
    (hbefore : ∀ p ∈ before, ¬ key <:+ p.1 ∧ Plain p.1 ∧ Plain p.2) :
    ∃ more, (more = [] ∨ more.head? = some 38) ∧
      afterFirst (key ++ [61]) (queryString (before ++ (key, text) :: after)) =
        some (text ++ more) := by
  induction before with
  | nil =>
    cases after with
    | nil =>
      refine ⟨[], Or.inl rfl, ?_⟩
      rw [List.nil_append, queryString, afterFirst_key _ hne hkey.1 hkey.1,
        if_pos List.suffix_rfl, List.append_nil]
    | cons q after =>
      refine ⟨38 :: queryString (q :: after), Or.inr rfl, ?_⟩
      rw [List.nil_append, queryString, afterFirst_key _ hne hkey.1 hkey.1,
        if_pos List.suffix_rfl]
  | cons p before ih =>
    obtain ⟨more, hmore, hfirst⟩ := ih fun q hq => hbefore q (List.mem_cons_of_mem _ hq)
    obtain ⟨hsuffix, hname, htext⟩ := hbefore p List.mem_cons_self
    refine ⟨more, hmore, ?_⟩
    obtain ⟨q, rest, hrest⟩ : ∃ q rest, before ++ (key, text) :: after = q :: rest := by
      cases before with
      | nil => exact ⟨_, _, rfl⟩
      | cons q before => exact ⟨_, _, rfl⟩
    rw [List.cons_append, hrest, queryString, afterFirst_key _ hne hkey.1 hname.1, if_neg hsuffix,
      afterFirst_text _ hkey htext, ← hrest, hfirst]

/-- A route gets the text as it stands in the target. -/
theorem queryParamValue_queryString (before after : List (Bytes × Bytes)) {key text : Bytes}
    (hne : key ≠ []) (hkey : Plain key)
    (hbefore : ∀ p ∈ before, ¬ key <:+ p.1 ∧ Plain p.1 ∧ Plain p.2) (htext : 38 ∉ text) :
    queryParamValue (queryString (before ++ (key, text) :: after)) key = text := by
  obtain ⟨more, hmore, hfirst⟩ := afterFirst_queryString text after hne hkey hbefore
  have hneedle : key ++ ascii "=" = key ++ [61] := rfl
  rw [queryParamValue, hneedle, hfirst]
  have hall : ∀ b ∈ text, decide (b ≠ 38) = true := by
    intro b hb
    rw [decide_eq_true_eq]
    rintro rfl
    exact htext hb
  rcases hmore with rfl | hhead
  · show (text ++ []).takeWhile (fun b => decide (b ≠ 38)) = text
    rw [List.append_nil, List.takeWhile_eq_self_iff.mpr hall]
  · cases more with
    | nil => cases hhead
    | cons c more =>
      obtain rfl := Option.some.inj hhead
      show (text ++ 38 :: more).takeWhile (fun b => decide (b ≠ 38)) = text
      rw [List.takeWhile_append_of_pos hall, List.takeWhile_cons_of_neg (by decide),
        List.append_nil]

theorem plain_decimal (n : Nat) : Plain (decimal n) := by
  have hdigit := List.all_eq_true.mp (all_isDigit_decimal n)
  exact ⟨fun h => absurd (hdigit _ h) (by decide), fun h => absurd (hdigit _ h) (by decide)⟩

theorem stoi_decimal {n : Nat} (h : n < 2 ^ 31) : stoi (decimal n) = some (n : Int) := by
  have hdigit := List.all_eq_true.mp (all_isDigit_decimal n)
  obtain ⟨d, ds, hds⟩ := List.exists_cons_of_ne_nil (decimal_ne_nil n)
  have hd := hdigit d (hds ▸ List.mem_cons_self)
  have hspace : (decimal n).dropWhile isSpace = decimal n := by
    rw [hds, List.dropWhile_cons_of_neg]
    intro hsp
    simp only [isSpace, isDigit, Bool.or_eq_true, decide_eq_true_eq, Bool.and_eq_true] at hsp hd
    rcases hsp with rfl | hsp
    · exact absurd hd.1 (by decide)
    · omega
  have hsign : ∀ b : UInt8, isDigit b = false → (decimal n).head? ≠ some b := by
    intro b hb hhead
    rw [hds] at hhead
    rw [Option.some.inj hhead] at hd
    exact absurd hd (by simp [hb])
  have htake : (decimal n).takeWhile isDigit = decimal n := List.takeWhile_eq_self_iff.mpr hdigit
  have hbound : (-2 ^ 31 : Int) ≤ n ∧ (n : Int) < 2 ^ 31 := ⟨by omega, by exact_mod_cast h⟩
  rw [stoi]
  simp only [hspace, hsign 45 (by decide), hsign 43 (by decide), or_self, if_false, htake,
    decimalValue_decimal, decimal_ne_nil, not_true_eq_false, hbound, and_self]

/-- A key that is not there is not found in a text either. -/
theorem queryParamValue_absent {pairs : List (Bytes × Bytes)} {key : Bytes}
    (hne : key ≠ []) (hkey : Plain key)
    (hpairs : ∀ p ∈ pairs, ¬ key <:+ p.1 ∧ Plain p.1 ∧ Plain p.2) :
    queryParamValue (queryString pairs) key = [] := by
  have hlast : ∀ text : Bytes, 61 ∉ text → afterFirst (key ++ [61]) text = none := by
    intro text htext
    induction text with
    | nil => rw [afterFirst, if_neg (by simp)]
    | cons b text ih =>
      have hnot : ¬ (key ++ [61]).isPrefixOf (b :: text) = true := fun h =>
        htext ((List.isPrefixOf_iff_prefix.mp h).subset (by simp))
      rw [afterFirst, if_neg hnot, ih fun h => htext (List.mem_cons_of_mem _ h)]
  have hnone : afterFirst (key ++ [61]) (queryString pairs) = none := by
    induction pairs with
    | nil => exact hlast [] (by simp)
    | cons p pairs ih =>
      obtain ⟨hsuffix, hname, htext⟩ := hpairs p List.mem_cons_self
      cases pairs with
      | nil =>
        rw [queryString, afterFirst_key _ hne hkey.1 hname.1, if_neg hsuffix, hlast _ htext.1]
      | cons q pairs =>
        rw [queryString, afterFirst_key _ hne hkey.1 hname.1, if_neg hsuffix,
          afterFirst_text _ hkey htext, ih fun r hr => hpairs r (List.mem_cons_of_mem _ hr)]
  have hneedle : key ++ ascii "=" = key ++ [61] := rfl
  rw [queryParamValue, hneedle, hnone]

/-! The two commands -/

/-- The search is run with the values as they were encoded. -/
theorem handleSearchCards_searchQuery {projectId query : Bytes} {limit : Nat}
    (hproject : projectId ≠ []) (hquery : query ≠ []) (hlimit : limit < 2 ^ 31) :
    handleSearchCards true (searchQuery projectId query limit) =
      .search (urlEncodeComponent projectId) (urlEncodeComponent query) limit 0 := by
  have hp := plain_urlEncodeComponent projectId
  have hq := plain_urlEncodeComponent query
  have hl := plain_decimal limit
  have hprojectId : queryParamValue (searchQuery projectId query limit) (ascii "project_id") =
      urlEncodeComponent projectId := by
    refine queryParamValue_queryString [] _ (by decide) (by decide) ?_ hp.2
    simp
  have hq' : queryParamValue (searchQuery projectId query limit) (ascii "q") =
      urlEncodeComponent query := by
    refine queryParamValue_queryString [_] _ (by decide) (by decide) ?_ hq.2
    simp only [List.mem_singleton, forall_eq]
    exact ⟨by decide, by decide, hp⟩
  have hlimit' : queryParamValue (searchQuery projectId query limit) (ascii "limit") =
      decimal limit := by
    refine queryParamValue_queryString [_, _] _ (by decide) (by decide) ?_ hl.2
    simp only [List.mem_cons, List.not_mem_nil, or_false, forall_eq_or_imp, forall_eq]
    exact ⟨⟨by decide, by decide, hp⟩, by decide, by decide, hq⟩
  have hoffset : queryParamValue (searchQuery projectId query limit) (ascii "offset") = [] := by
    refine queryParamValue_absent (by decide) (by decide) ?_
    simp only [List.mem_cons, List.not_mem_nil, or_false, forall_eq_or_imp, forall_eq]
    exact ⟨⟨by decide, by decide, hp⟩, ⟨by decide, by decide, hq⟩, by decide, by decide, hl⟩
  simp only [handleSearchCards, numberParam, hprojectId, hq', hlimit', hoffset, decimal_ne_nil,
    stoi_decimal hlimit, urlEncodeComponent_ne_nil hproject, urlEncodeComponent_ne_nil hquery]
  rfl

theorem handleCards_tagQuery {projectId tag : Bytes} (hproject : projectId ≠ [])
    (htag : tag ≠ []) :
    handleCards (tagQuery projectId tag) =
      .withTag (urlEncodeComponent projectId) (urlEncodeComponent tag) := by
  have hp := plain_urlEncodeComponent projectId
  have hprojectId : queryParamValue (tagQuery projectId tag) (ascii "project_id") =
      urlEncodeComponent projectId := by
    refine queryParamValue_queryString [] _ (by decide) (by decide) ?_ hp.2
    simp
  have htag' : queryParamValue (tagQuery projectId tag) (ascii "tag") = urlEncodeComponent tag := by
    refine queryParamValue_queryString [_] _ (by decide) (by decide) ?_
      (plain_urlEncodeComponent tag).2
    simp only [List.mem_singleton, forall_eq]
    exact ⟨by decide, by decide, hp⟩
  simp only [handleCards, hprojectId, htag']
  rw [if_neg (urlEncodeComponent_ne_nil hproject), if_pos (urlEncodeComponent_ne_nil htag)]

/-- A value arrives as it was typed exactly when encoding leaves it alone: the lookup does not
decode. -/
theorem values_arrive_iff {projectId value : Bytes} {limit : Nat} (hproject : projectId ≠ [])
    (hvalue : value ≠ []) (hlimit : limit < 2 ^ 31) :
    (handleSearchCards true (searchQuery projectId value limit) =
        .search projectId value limit 0 ↔
      projectId.all isSafe = true ∧ value.all isSafe = true) ∧
    (handleCards (tagQuery projectId value) = .withTag projectId value ↔
      projectId.all isSafe = true ∧ value.all isSafe = true) ∧
    ∀ (before after : List (Bytes × Bytes)) (key : Bytes), key ≠ [] → Plain key →
      (∀ p ∈ before, ¬ key <:+ p.1 ∧ Plain p.1 ∧ Plain p.2) →
      (queryParamValue (queryString (before ++ (key, urlEncodeComponent value) :: after)) key =
          value ↔
        value.all isSafe = true) := by
  refine ⟨?_, ?_, ?_⟩
  · rw [handleSearchCards_searchQuery hproject hvalue hlimit, SearchCall.search.injEq,
      urlEncodeComponent_eq_iff, urlEncodeComponent_eq_iff]
    simp
  · rw [handleCards_tagQuery hproject hvalue, CardsCall.withTag.injEq, urlEncodeComponent_eq_iff,
      urlEncodeComponent_eq_iff]
  · intro before after key hne hkey hbefore
    rw [queryParamValue_queryString before after hne hkey hbefore (plain_urlEncodeComponent value).2,
      urlEncodeComponent_eq_iff]

/-- A word does. -/
theorem values_arrive_word :
    handleSearchCards true (searchQuery (ascii "p-1") (ascii "plan") 20) =
        .search (ascii "p-1") (ascii "plan") 20 0 :=
  (values_arrive_iff (by decide) (by decide) (by decide)).1.mpr (by decide)

/-- A search for two words is run for `a%20b`. -/
theorem twoWords_arrive_encoded :
    handleSearchCards true (searchQuery (ascii "p-1") (ascii "a b") 20) =
        .search (ascii "p-1") (ascii "a%20b") 20 0 ∧
      handleCards (tagQuery (ascii "p-1") (ascii "a b")) =
        .withTag (ascii "p-1") (ascii "a%20b") ∧
      ¬ ∀ projectId value : Bytes, projectId ≠ [] → value ≠ [] →
        handleSearchCards true (searchQuery projectId value 20) =
          .search projectId value 20 0 := by
  have hsearch : handleSearchCards true (searchQuery (ascii "p-1") (ascii "a b") 20) =
      .search (ascii "p-1") (ascii "a%20b") 20 0 :=
    handleSearchCards_searchQuery (by decide) (by decide) (by decide)
  refine ⟨hsearch, handleCards_tagQuery (by decide) (by decide), fun h => ?_⟩
  have harrives := h (ascii "p-1") (ascii "a b") (by decide) (by decide)
  rw [hsearch] at harrives
  exact absurd harrives (by decide)

end QueryValues

end HolderDaemon
