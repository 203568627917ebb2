import EntityQuery.Proofs.Schema.Paths
import EntityQuery.Proofs.Text.Percent
import EntityQuery.Remote.Request
import Mathlib.Data.List.TakeWhile

/-!
# Reading addresses

The parameters of an address stand behind its first question mark, between ampersands, each with
its value behind its first equals sign, and are percent-encoded. A request that is put behind an
address adds its own parameters to those that the address has, and changes none of them.
-/

namespace EntityQuery

namespace Text

/-- What stands before the first occurrence of a mark in a text, and what stands behind it. -/
def splitFirst (mark : Char) (text : String) : String × String :=
  (String.ofList (text.toList.takeWhile (· != mark)),
    String.ofList (text.toList.dropWhile (· != mark)).tail)

/-- A text without the mark in front of one stands before the first occurrence. -/
theorem splitFirst_append {mark : Char} {front : String} (h : mark ∉ front.toList)
    (back : String) : splitFirst mark (front ++ String.singleton mark ++ back) = (front, back) := by
  have hfront : ∀ c ∈ front.toList, (c != mark) = true := by
    rintro c hc
    exact bne_iff_ne.mpr fun heq => h (heq ▸ hc)
  have htext : (front ++ String.singleton mark ++ back).toList =
      front.toList ++ mark :: back.toList := by
    simp [String.toList_append]
  rw [splitFirst, htext, List.takeWhile_append_of_pos hfront, List.dropWhile_append_of_pos hfront,
    List.takeWhile_cons_of_neg (by simp), List.dropWhile_cons_of_neg (by simp)]
  simp

/-- What stands behind a text with the mark stands behind its first occurrence. -/
theorem splitFirst_append_of_mem {mark : Char} {front : String} (h : mark ∈ front.toList)
    (back : String) : (splitFirst mark (front ++ back)).2 = (splitFirst mark front).2 ++ back := by
  have hrest : front.toList.dropWhile (· != mark) ≠ [] := by
    intro hnil
    simpa using List.dropWhile_eq_nil_iff.mp hnil mark h
  apply String.toList_inj.mp
  rw [splitFirst, splitFirst, String.toList_ofList, String.toList_append, String.toList_append,
    String.toList_ofList, List.dropWhile_append, if_neg (by simpa using hrest),
    List.tail_append_of_ne_nil hrest]

/-- Nothing stands behind the mark in a text without it. -/
theorem splitFirst_of_not_mem {mark : Char} {text : String} (h : mark ∉ text.toList) :
    (splitFirst mark text).2 = "" := by
  have hnil : text.toList.dropWhile (· != mark) = [] :=
    List.dropWhile_eq_nil_iff.mpr fun c hc => bne_iff_ne.mpr fun heq => h (heq ▸ hc)
  rw [splitFirst, hnil]
  rfl

end Text

namespace Remote

/-- The key and the value of a piece of an address, decoded. -/
def parameter (piece : String) : Option String × Option String :=
  let halves := Text.splitFirst '=' piece
  (Text.percentDecode? halves.1, Text.percentDecode? halves.2)

/-- The parameters in the query of an address. Empty pieces are passed over. -/
def queryParameters (query : String) : List (Option String × Option String) :=
  ((Text.pieces '&' query).filter (!·.isEmpty)).map parameter

/-- The parameters of an address stand behind its first question mark. -/
def parametersOf (address : String) : List (Option String × Option String) :=
  queryParameters (Text.splitFirst '?' address).2

/-- An empty query has no parameters. -/
theorem queryParameters_empty : queryParameters "" = [] := rfl

/-- The parameters of two queries around an ampersand are those of both. -/
theorem queryParameters_append (front back : String) :
    queryParameters (front ++ "&" ++ back) = queryParameters front ++ queryParameters back := by
  have hpieces := Text.pieces_append '&' front back
  rw [queryParameters, queryParameters, queryParameters, ← List.map_append, ← List.filter_append,
    ← hpieces]
  rfl

namespace Request

variable {request : Request}

/-- No mark of an address occurs in the common beginning of the standard keys. -/
def HasPlainPrefix (request : Request) : Prop :=
  ∀ mark ∈ ['&', '=', '%', '#'], mark ∉ request.keyPrefix.toList

/-- A key is encoded behind the common beginning of the standard keys, or all of it is. -/
theorem exists_encodeKey (request : Request) (key : String) :
    ∃ front rest, (∀ c ∈ front.toList, c ∈ request.keyPrefix.toList) ∧ front ++ rest = key ∧
      request.encodeKey key = front ++ Text.percentEncode rest := by
  by_cases hstarts :
      (!request.keyPrefix.toList.isEmpty && request.keyPrefix.toList.isPrefixOf key.toList) = true
  · obtain ⟨rest, hrest⟩ := List.isPrefixOf_iff_prefix.mp (Bool.and_eq_true_iff.mp hstarts).2
    refine ⟨request.keyPrefix, String.ofList rest, fun _ hc => hc, ?_, ?_⟩
    · apply String.toList_inj.mp
      rw [String.toList_append, String.toList_ofList, hrest]
    · simp only [encodeKey, hstarts, if_true]
      rw [← hrest, List.drop_left]
  · refine ⟨"", key, fun _ hc => absurd hc List.not_mem_nil, String.empty_append, ?_⟩
    simp only [encodeKey, hstarts, Bool.false_eq_true, if_false, String.empty_append]

/-- An encoded key is read. -/
theorem percentDecode?_encodeKey (h : request.HasPlainPrefix) (key : String) :
    Text.percentDecode? (request.encodeKey key) = some key := by
  obtain ⟨front, rest, hfront, hkey, hencoded⟩ := exists_encodeKey request key
  have hpercent : '%' ∉ front.toList := fun hmem => h '%' (by simp) (hfront _ hmem)
  rw [hencoded, Text.percentDecode?_append_percentEncode hpercent, hkey]

section

variable {mark : Char} (hreserved : Text.isUnreserved mark = false) (hpercent : mark ≠ '%')
  (hstart : mark ∉ request.keyPrefix.toList)

include hreserved hpercent hstart

/-- A reserved mark does not occur in an encoded key. -/
theorem not_mem_encodeKey (key : String) : mark ∉ (request.encodeKey key).toList := by
  obtain ⟨front, rest, hfront, _, hencoded⟩ := exists_encodeKey request key
  rw [hencoded, String.toList_append, List.mem_append, not_or]
  exact ⟨fun hmem => hstart (hfront mark hmem),
    Text.not_mem_percentEncode hreserved hpercent rest⟩

/-- A reserved mark other than the equals sign does not occur in an encoded pair. -/
theorem not_mem_encodePair (hequals : mark ≠ '=') (pair : String × String) :
    mark ∉ (request.encodePair pair).toList := by
  have hkey := not_mem_encodeKey hreserved hpercent hstart pair.1
  have hvalue := Text.not_mem_percentEncode hreserved hpercent pair.2
  have hsign : mark ∉ "=".toList := fun hmem => hequals (List.mem_singleton.mp hmem)
  simp only [encodePair, String.toList_append, List.mem_append, not_or]
  exact ⟨⟨hkey, hsign⟩, hvalue⟩

end

/-- An encoded pair is read. -/
theorem parameter_encodePair (h : request.HasPlainPrefix) (pair : String × String) :
    parameter (request.encodePair pair) = (some pair.1, some pair.2) := by
  have hkey := not_mem_encodeKey rfl (by decide) (h '=' (by simp)) pair.1
  have hhalves : Text.splitFirst '=' (request.encodePair pair) =
      (request.encodeKey pair.1, Text.percentEncode pair.2) := Text.splitFirst_append hkey _
  rw [parameter, hhalves]
  simp only [percentDecode?_encodeKey h, Text.percentDecode?_percentEncode]

/-- An encoded pair is not empty. -/
theorem isEmpty_encodePair (request : Request) (pair : String × String) :
    (request.encodePair pair).isEmpty = false := by
  rw [encodePair]
  simp

/-- The query string holds the pairs of the request. -/
theorem queryParameters_queryString (h : request.HasPlainPrefix) :
    queryParameters request.queryString =
      request.pairs.map fun pair => (some pair.1, some pair.2) := by
  unfold queryString
  by_cases hnone : request.pairs = []
  · rw [hnone]
    rfl
  · have hpieces : Text.pieces '&' (String.intercalate "&" (request.pairs.map request.encodePair)) =
        request.pairs.map request.encodePair := by
      refine Text.pieces_intercalate (by simpa using hnone) fun text htext => ?_
      obtain ⟨pair, _, rfl⟩ := List.mem_map.mp htext
      exact not_mem_encodePair rfl (by decide) (h '&' (by simp)) (by decide) pair
    have hkept : (request.pairs.map request.encodePair).filter (!·.isEmpty) =
        request.pairs.map request.encodePair := by
      refine List.filter_eq_self.mpr fun text htext => ?_
      obtain ⟨pair, _, rfl⟩ := List.mem_map.mp htext
      rw [isEmpty_encodePair, Bool.not_false]
    rw [queryParameters, hpieces, hkept, List.map_map]
    exact List.map_congr_left fun pair _ => parameter_encodePair h pair

/-- Without parameters there is no query string, and there is one otherwise. -/
theorem isEmpty_queryString (request : Request) :
    request.queryString.isEmpty = request.pairs.isEmpty := by
  unfold queryString
  cases request.pairs with
  | nil => rfl
  | cons pair pairs =>
    have hfirst : request.encodePair pair ≠ "" := by
      rw [ne_eq, ← String.isEmpty_iff, isEmpty_encodePair]
      decide
    rw [List.isEmpty_cons, List.map_cons, Text.isEmpty_intercalate_cons hfirst]

/-- There is no fragment in a query string. -/
theorem not_mem_queryString (h : request.HasPlainPrefix) : '#' ∉ request.queryString.toList := by
  intro hmem
  rcases Text.mem_of_mem_intercalate hmem with hseparator | ⟨text, htext, hc⟩
  · exact absurd hseparator (by decide)
  · obtain ⟨pair, _, rfl⟩ := List.mem_map.mp htext
    exact not_mem_encodePair rfl (by decide) (h '#' (by simp)) (by decide) pair hc

/-- A query string is put behind a question mark, or behind an ampersand if there is one. -/
theorem appendTo_eq {base : String} (hpairs : request.pairs ≠ []) :
    request.appendTo base =
      base ++ (if '?' ∈ base.toList then "&" else "?") ++ request.queryString := by
  have hempty : request.queryString.isEmpty = false := by
    rw [isEmpty_queryString, List.isEmpty_eq_false_iff.mpr hpairs]
  by_cases hmark : '?' ∈ base.toList <;> simp [appendTo, hempty, hmark]

/-- The parameters of an address with a request behind it are those that the address has, and
then those of the request in their order. There is no fragment in it, and an address stays as
it is if the request has no parameters. -/
theorem parametersOf_appendTo (h : request.HasPlainPrefix) {base : String}
    (hbase : '#' ∉ base.toList) :
    parametersOf (request.appendTo base) =
        parametersOf base ++ request.pairs.map (fun pair => (some pair.1, some pair.2)) ∧
      '#' ∉ (request.appendTo base).toList ∧
      (request.pairs = [] → request.appendTo base = base) := by
  have hquery := queryParameters_queryString h
  by_cases hpairs : request.pairs = []
  · have hsame : request.appendTo base = base := by
      simp only [appendTo, isEmpty_queryString, hpairs, List.isEmpty_nil, if_true]
    rw [hsame, hpairs, List.map_nil, List.append_nil]
    exact ⟨rfl, hbase, fun _ => rfl⟩
  · refine ⟨?_, ?_, fun hnone => absurd hnone hpairs⟩
    · rw [appendTo_eq hpairs, ← hquery, parametersOf, parametersOf]
      by_cases hmark : '?' ∈ base.toList
      · rw [if_pos hmark, String.append_assoc, Text.splitFirst_append_of_mem hmark,
          ← String.append_assoc, queryParameters_append]
      · have hbehind : Text.splitFirst '?' (base ++ "?" ++ request.queryString) =
            (base, request.queryString) := Text.splitFirst_append hmark _
        rw [if_neg hmark, hbehind, Text.splitFirst_of_not_mem hmark, queryParameters_empty,
          List.nil_append]
    · rw [appendTo_eq hpairs]
      simp only [String.toList_append, List.mem_append, not_or]
      refine ⟨⟨hbase, ?_⟩, not_mem_queryString h⟩
      split <;> decide

/-- A request with marks of addresses in its values and in the keys that are passed through. -/
def markedRequest : Request where
  filter := some "Name eq 'Ü & Co'"
  skip := some 5
  custom := [("$apply", "a=b?"), ("50%", "")]
  keyPrefix := "$"

/-- An address that has parameters of its own. -/
def tenantAddress : String := "http://svc/odata?tenant=acme%20corp&&flag"

theorem parametersOf_appendTo_marked :
    markedRequest.HasPlainPrefix ∧ '#' ∉ tenantAddress.toList ∧
      parametersOf (markedRequest.appendTo tenantAddress) =
        [(some "tenant", some "acme corp"), (some "flag", some ""),
          (some "$filter", some "Name eq 'Ü & Co'"), (some "$skip", some "5"),
          (some "$apply", some "a=b?"), (some "50%", some "")] := by
  have hstart : markedRequest.HasPlainPrefix := by
    intro c hc hmem
    obtain rfl := List.mem_singleton.mp hmem
    exact absurd hc (by decide)
  have hbase : '#' ∉ tenantAddress.toList := by decide
  obtain ⟨hread, _, _⟩ := parametersOf_appendTo hstart hbase
  have hown : parametersOf tenantAddress =
      [(some "tenant", some "acme corp"), (some "flag", some "")] := by
    decide +kernel
  refine ⟨hstart, hbase, ?_⟩
  rw [hread, hown]
  rfl

end Request

end Remote

end EntityQuery
