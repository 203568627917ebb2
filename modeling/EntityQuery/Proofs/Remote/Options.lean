import EntityQuery.CommandLine.Run
import EntityQuery.Proofs.Entries
import EntityQuery.Proofs.Query.Construction
import EntityQuery.Proofs.Remote.Addresses
import EntityQuery.Proofs.Remote.Meaning
import EntityQuery.Proofs.Schema.Fields

/-!
# The options of a request, each under its key

A request names each standard option once, and each parameter that is passed through once. A
parameter is passed through as it is, so it can have the key of a standard option; then the list
of pairs has both, and the map of them keeps the parameter. Apart from that the list, the map and
the address say the same.
-/

namespace EntityQuery

namespace Entries

/-- Storing contents one after the other keeps the canonical form. -/
theorem Ordered.foldl_insert {α : Type} {entries : Entries α} (h : entries.Ordered)
    (pairs : List (String × α)) :
    Ordered (pairs.foldl (fun entries pair => entries.insert pair.1 pair.2) entries) := by
  induction pairs generalizing entries with
  | nil => exact h
  | cons pair rest ih => exact ih (h.insert pair.1 pair.2)

end Entries

namespace Schema

/-- A type with a key has a model. -/
theorem exists_model_of_key {schema : Schema} {type : String} {field : Field}
    (h : schema.key type = .ok field) : ∃ model, schema.model type = .ok model := by
  rw [model]
  cases hmodel : schema.models.get? type with
  | some model => exact ⟨model, rfl⟩
  | none => simp [key, lineage, climb, hmodel, Lineage.conclude] at h

end Schema

namespace Draft

/-- The parameters that a draft passes through are a canonical map. -/
def HasOrderedParams (draft : Draft) : Prop := draft.customParams.Ordered

/-- A change keeps the parameters in canonical form. -/
theorem HasOrderedParams.change {draft : Draft} (h : draft.HasOrderedParams) (step : Step) :
    (step.change draft).HasOrderedParams := by
  cases step with
  | custom params => exact h.foldl_insert params
  | _ => exact h

/-- A run of steps keeps the parameters in canonical form. -/
theorem HasOrderedParams.steps {draft : Draft} (h : draft.HasOrderedParams)
    (taken : List Step) : (draft.steps taken).HasOrderedParams :=
  steps_induction h (fun _ _ hsofar => hsofar) (fun step _ _ hsofar => hsofar.change step) taken

/-- A query built from steps has a model, and passes each parameter through once. -/
theorem exists_model_of_build {taken : List Step} {schema : Schema} {settings : BuildSettings}
    {query : Query} (h : (ofSteps taken).build schema settings = .ok query) :
    (∃ model, schema.model query.entityType = .ok model) ∧ query.customParams.Ordered := by
  obtain ⟨_, _, _, trace⟩ := exists_trace_of_build h
  obtain ⟨key, hkey, _⟩ := bind_eq_ok_iff.mp trace.named
  have hempty : ({} : Draft).HasOrderedParams := .nil
  have hordered : (ofSteps taken).customParams.Ordered := hempty.steps taken
  refine ⟨Schema.exists_model_of_key hkey, ?_⟩
  rw [trace.options]
  exact hordered

end Draft

namespace Remote

namespace Request

/-- The names of the standard options, in their order. -/
def optionNames : List String :=
  ["filter", "orderby", "skip", "top", "count", "select", "expand"]

/-- The keys of the standard options that are used stand in the order of all of them. -/
theorem map_fst_standardPairs_sublist (request : Request) :
    (request.standardPairs.map Prod.fst).Sublist
      (optionNames.map (request.keyPrefix ++ ·)) := by
  have hoption : ∀ (name : String) (text : Option String),
      ((text.toList.map fun text => (request.keyPrefix ++ name, text)).map Prod.fst).Sublist
        [request.keyPrefix ++ name] := by
    intro name text
    cases text with
    | none => exact List.nil_sublist _
    | some text => exact List.Sublist.refl _
  simp only [standardPairs, List.map_append]
  exact ((((((hoption "filter" _).append (hoption "orderby" _)).append
    (hoption "skip" _)).append (hoption "top" _)).append (hoption "count" _)).append
    (hoption "select" _)).append (hoption "expand" _)

/-- No standard option is named twice, whatever their keys begin with. -/
theorem nodup_standardPairs (request : Request) :
    (request.standardPairs.map Prod.fst).Nodup := by
  refine (map_fst_standardPairs_sublist request).nodup (List.Nodup.map ?_ (by decide))
  intro first second hsame
  have hlists := congrArg String.toList hsame
  simpa [String.toList_append, String.toList_inj] using hlists

/-- The map of the keys and values. Of two pairs with one key it has the second. -/
def pairMap (request : Request) : Entries String := Entries.ofList request.pairs

/-- The answer to a request for an address holds the address and the map of the pairs. -/
theorem urlText_json (request : Request) (url : String) :
    CommandLine.urlText .json url request =
      CommandLine.documentText (.object [
        ("params", .object (request.pairMap.mapContents .string)), ("url", .string url)]) := by
  rw [CommandLine.urlText, pairMap, ← Entries.ofList_map]

/-- Put behind an address without a question mark, the pairs are its parameters. -/
theorem parametersOf_appendTo_plain {request : Request} (h : request.HasPlainPrefix)
    {address : String} (haddress : '?' ∉ address.toList) :
    parametersOf (request.appendTo address) =
      request.pairs.map fun pair => (some pair.1, some pair.2) := by
  rw [← queryParameters_queryString h, parametersOf]
  by_cases hpairs : request.pairs = []
  · have hempty : request.queryString.isEmpty = true := by
      rw [isEmpty_queryString, hpairs, List.isEmpty_nil]
    have hquery : request.queryString = "" := by simpa using hempty
    rw [appendTo, if_pos hempty, Text.splitFirst_of_not_mem haddress, hquery]
  · have hbehind : Text.splitFirst '?' (address ++ "?" ++ request.queryString) =
        (address, request.queryString) := Text.splitFirst_append haddress _
    rw [appendTo_eq hpairs, if_neg haddress, hbehind]

end Request

namespace Context

/-- A request passes the parameters of its query through. -/
theorem custom_of_request {context : Context} {query : Query} {request : Request}
    (h : context.request query = .ok request) : request.custom = query.customParams := by
  obtain ⟨filter, _, h⟩ := bind_eq_ok_iff.mp h
  obtain ⟨orderBy, _, h⟩ := bind_eq_ok_iff.mp h
  obtain ⟨selection, _, h⟩ := bind_eq_ok_iff.mp h
  obtain rfl := pure_eq_ok_iff.mp h
  rfl

/-- In the request of a query that was built from steps, no key occurs twice exactly when no
parameter that is passed through has the key of a standard option that is used. The standard
options always come first and are all there. The address has the pairs behind that of the
collection; the map that is printed beside it has the value of the parameter under every key
that a parameter has, and of the standard option otherwise, so it holds the same pairs exactly
when no key occurs twice. -/
theorem nodup_keys_iff {context : Context} {taken : List Step} {settings : BuildSettings}
    {query : Query} {request : Request}
    (hbuild : (Draft.ofSteps taken).build context.schema settings = .ok query)
    (hrequest : context.request query = .ok request) :
    ((request.pairs.map Prod.fst).Nodup ↔
        ∀ param ∈ query.customParams, param.1 ∉ request.standardPairs.map Prod.fst) ∧
      request.pairs = request.standardPairs ++ query.customParams ∧
      (request.standardPairs.map Prod.fst).Nodup ∧ (query.customParams.map Prod.fst).Nodup ∧
      ∃ model, context.schema.model query.entityType = .ok model ∧ ∀ base,
        let address := context.resource base model query
        let url := request.appendTo address
        context.url base query = .ok url ∧
          (request.HasPlainPrefix → '?' ∉ address.toList →
            parametersOf url = request.pairs.map fun pair => (some pair.1, some pair.2)) ∧
          ∃ params : Entries String,
            CommandLine.urlText .json url request =
              CommandLine.documentText (.object [
                ("params", .object (params.mapContents .string)), ("url", .string url)]) ∧
            params.Ordered ∧
            (∀ key, params.get? key =
              (query.customParams.get? key).or (Entries.get? request.standardPairs key)) ∧
            (params.Perm request.pairs ↔ (request.pairs.map Prod.fst).Nodup) := by
  obtain ⟨⟨model, hmodel⟩, hordered⟩ := Draft.exists_model_of_build hbuild
  have hcustom := custom_of_request hrequest
  have hpairs : request.pairs = request.standardPairs ++ query.customParams := by
    rw [Request.pairs, hcustom]
  have hstandard := request.nodup_standardPairs
  refine ⟨?_, hpairs, hstandard, hordered.nodup, model, hmodel, fun base => ?_⟩
  · rw [hpairs, List.map_append, List.nodup_append]
    constructor
    · rintro ⟨_, _, hdisjoint⟩ param hparam hmem
      exact hdisjoint param.1 hmem param.1 (List.mem_map_of_mem hparam) rfl
    · intro hfree
      refine ⟨hstandard, hordered.nodup, ?_⟩
      rintro key hkey _ hother rfl
      obtain ⟨param, hparam, rfl⟩ := List.mem_map.mp hother
      exact hfree param hparam hkey
  · refine ⟨?_, fun hplain haddress => Request.parametersOf_appendTo_plain hplain haddress,
      request.pairMap, request.urlText_json _, Entries.ordered_ofList _, fun key => ?_,
      Entries.perm_ofList_iff⟩
    · rw [url, hmodel, ok_bind, hrequest]
      rfl
    · rw [Request.pairMap, hpairs]
      exact Entries.get?_ofList_append hstandard hordered.nodup key

/-- The names of ten employees, with a parameter that is passed through. -/
def tenEmployees (param : String × String) : List Step :=
  [.ofType "employee", .select "name", .top 10, .custom [param]]

/-- A parameter for the tenant keeps out of the way of the standard options. -/
theorem nodup_keys_tenant :
    ∃ query request,
      (Draft.ofSteps (tenEmployees ("tenant", "acme corp"))).build sample.schema = .ok query ∧
        sample.request query = .ok request ∧ (request.pairs.map Prod.fst).Nodup ∧
        sample.url "http://svc/odata" query =
          .ok "http://svc/odata/Employee?$top=10&$select=id%2CName&tenant=acme%20corp" := by
  obtain ⟨query, hbuild⟩ : ∃ query,
      (Draft.ofSteps (tenEmployees ("tenant", "acme corp"))).build sample.schema = .ok query :=
    exists_eq_ok_of_isOk (by decide +kernel)
  have hanswer : ((Draft.ofSteps (tenEmployees ("tenant", "acme corp"))).build sample.schema >>=
      fun query => do
        let request ← sample.request query
        return (request.pairs, query.customParams, ← sample.url "http://svc/odata" query)) =
      .ok ([("$top", "10"), ("$select", "id,Name"), ("tenant", "acme corp")],
        [("tenant", "acme corp")],
        "http://svc/odata/Employee?$top=10&$select=id%2CName&tenant=acme%20corp") := by
    decide +kernel
  rw [hbuild, ok_bind] at hanswer
  obtain ⟨request, hrequest, hanswer⟩ := bind_eq_ok_iff.mp hanswer
  obtain ⟨url, hurl, hanswer⟩ := bind_eq_ok_iff.mp hanswer
  obtain ⟨hpairs, hparams, rfl⟩ : request.pairs = _ ∧ query.customParams = _ ∧ url = _ := by
    simpa only [Prod.mk.injEq] using pure_eq_ok_iff.mp hanswer
  obtain ⟨hnodup, happended, _⟩ := nodup_keys_iff hbuild hrequest
  refine ⟨query, request, hbuild, hrequest, hnodup.mpr ?_, hurl⟩
  rw [hparams, hpairs] at happended
  have hstandard : request.standardPairs = [("$top", "10"), ("$select", "id,Name")] :=
    (List.append_cancel_right (show [("$top", "10"), ("$select", "id,Name")] ++
      [("tenant", "acme corp")] = request.standardPairs ++ [("tenant", "acme corp")] from
        happended)).symm
  rw [hparams, hstandard]
  decide

/-- A parameter with the key of the limit stands beside the limit, and takes its place in the
map. -/
theorem top_twice :
    ∃ query request,
      (Draft.ofSteps (tenEmployees ("$top", "5"))).build sample.schema = .ok query ∧
        sample.request query = .ok request ∧
        request.pairs = [("$top", "10"), ("$select", "id,Name"), ("$top", "5")] ∧
        ¬ (request.pairs.map Prod.fst).Nodup ∧
        request.pairMap = [("$select", "id,Name"), ("$top", "5")] := by
  obtain ⟨query, hbuild⟩ : ∃ query,
      (Draft.ofSteps (tenEmployees ("$top", "5"))).build sample.schema = .ok query :=
    exists_eq_ok_of_isOk (by decide +kernel)
  have hanswer : ((Draft.ofSteps (tenEmployees ("$top", "5"))).build sample.schema >>=
      fun query => do return (← sample.request query).pairs) =
      .ok [("$top", "10"), ("$select", "id,Name"), ("$top", "5")] := by
    decide +kernel
  rw [hbuild, ok_bind] at hanswer
  obtain ⟨request, hrequest, hanswer⟩ := bind_eq_ok_iff.mp hanswer
  have hpairs := pure_eq_ok_iff.mp hanswer
  refine ⟨query, request, hbuild, hrequest, hpairs, ?_, ?_⟩
  · rw [hpairs]
    decide
  · rw [Request.pairMap, hpairs]
    decide +kernel

end Context

end Remote

end EntityQuery
