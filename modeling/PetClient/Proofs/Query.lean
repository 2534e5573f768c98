import PetClient.Proofs.Call
import PetClient.Proofs.Target

/-!
Pairs that a caller adds to a query: the address is that of the path but for its query, which holds
the pairs behind all that it held before, and the request carries it as it is.
-/

namespace PetClient

namespace Url

theorem eq_addPairs (u : Url) (pairs : List (String × String)) :
    u.addPairs pairs = { u with query := (u.addPairs pairs).query } := by
  unfold addPairs
  split <;> rfl

/-- Added pairs stand behind the query and are read behind its own. -/
theorem query_addPairs (u : Url) {pairs : List (String × String)} (nonempty : pairs ≠ []) :
    ∃ query, (u.addPairs pairs).query = some query ∧
      (u.query.getD "").toList <+: query.toList ∧
      Form.decode query.toList = Form.decode (u.query.getD "").toList ++ pairs := by
  have before : (u.query.map String.toList).getD [] = (u.query.getD "").toList := by
    cases u.query <;> rfl
  obtain ⟨⟨more, grown⟩, read⟩ := Form.foldl_addPair (u.query.getD "").toList pairs
  refine ⟨String.ofList (pairs.foldl Form.addPair (u.query.getD "").toList), ?_, ?_, ?_⟩
  · unfold addPairs
    rw [if_neg (by simpa using nonempty), before]
  · rw [String.toList_ofList, grown]
    exact List.prefix_append ..
  · rw [String.toList_ofList, read]

end Url

namespace Call

variable {σ α : Type}

theorem query_of_prepare {client : Client} {call : Call α} {url : Url} {request : Http.Request}
    (prepared : call.prepare client = .ok (url, request)) :
    Http.Target.parse url.text = .ok request.target ∧ request.target.query? = url.query := by
  obtain ⟨body, base, target, -, parsed, rfl, read, rfl⟩ := prepare_eq_ok prepared
  exact ⟨read, ((Url.separated_of_parse parsed).addPairs _).query_target read⟩

/-- A caller's pairs reach the server as they are.  The address of the call differs from that of the
path in its query alone; without pairs it does not differ at all.  The query that was there stays in
front, the pairs are read behind its own in their order, and the target has the same query. -/
theorem added_pairs_are_read {config : Config} {client : Client}
    (built : Client.ofConfig config = .ok client) {path : String} {base : Url}
    (parsed : Url.parse (config.trimmedBaseUrl ++ path) = .ok base)
    (pairs : List (String × String)) :
    ∃ url, client.address path pairs = .ok url ∧
      url = { base with query := url.query } ∧
      (pairs = [] → url = base) ∧
      (pairs ≠ [] → ∃ query, url.query = some query ∧
        (base.query.getD "").toList <+: query.toList ∧
        Url.Form.decode query.toList = Url.Form.decode (base.query.getD "").toList ++ pairs) ∧
      ∀ (shape : Json.Shape α) (transport : Transport σ) (state : σ),
        ∀ request ∈ (getWithQuery shape path pairs).sent client transport state,
          Http.Target.parse url.text = .ok request.target ∧
            request.target.query? = url.query := by
  have address : client.address path pairs = .ok (base.addPairs pairs) := by
    unfold Client.address
    simp only [(Client.ofConfig_eq_ok built).1, parsed]
  refine ⟨base.addPairs pairs, address, base.eq_addPairs pairs, ?_, base.query_addPairs, ?_⟩
  · rintro rfl
    rfl
  · intro shape transport state request sent
    rw [sent_eq_requests, mem_requests] at sent
    obtain ⟨url, prepared⟩ := sent
    obtain ⟨body, again, target, -, parsed_again, same, -, -⟩ := prepare_eq_ok prepared
    have same_base : again = base := by
      rw [(Client.ofConfig_eq_ok built).1] at parsed_again
      exact Except.ok.inj (parsed_again.symm.trans parsed)
    have same_url : url = base.addPairs pairs := by
      rw [same, same_base]
      rfl
    rw [← same_url]
    exact query_of_prepare prepared

/-- Signs with a meaning, a blank and a letter outside ASCII are read behind a query that is there,
and the fragment stays. -/
theorem added_pairs_are_read_encoded :
    ∃ client url, Client.ofConfig { baseUrl := "http://[::1]" } = .ok client ∧
      client.address "/pets?a=b#end" [("x&y", "=+ é"), ("", "")] = .ok url ∧
      url.text = "http://[::1]/pets?a=b&x%26y=%3D%2B+%C3%A9&=#end" ∧
      Url.Form.decode (url.query.getD "").toList = [("a", "b"), ("x&y", "=+ é"), ("", "")] ∧
      ∀ transport : Transport Unit,
        let call := getWithQuery Json.any "/pets?a=b#end" [("x&y", "=+ é"), ("", "")]
        call.sent client transport () ≠ [] ∧
          ∀ request ∈ call.sent client transport (), request.target.query? = url.query := by
  let base : Url :=
    { scheme := "http"
      authority := some { host := some (.ipv6 [0, 0, 0, 0, 0, 0, 0, 1]) }
      path := "/pets"
      query := some "a=b"
      fragment := some "end" }
  have built : Client.ofConfig { baseUrl := "http://[::1]" } = .ok ⟨"http://[::1]", []⟩ := by cbv
  have parsed : Url.parse (Config.trimmedBaseUrl { baseUrl := "http://[::1]" } ++
      "/pets?a=b#end") = .ok base := by cbv
  have computed : Client.address ⟨"http://[::1]", []⟩ "/pets?a=b#end" [("x&y", "=+ é"), ("", "")] =
      .ok (base.addPairs [("x&y", "=+ é"), ("", "")]) := by cbv
  have text : (base.addPairs [("x&y", "=+ é"), ("", "")]).text =
      "http://[::1]/pets?a=b&x%26y=%3D%2B+%C3%A9&=#end" := by cbv
  have before : Url.Form.decode "a=b".toList = [("a", "b")] := by cbv
  have request_eq : (getWithQuery Json.any "/pets?a=b#end"
      [("x&y", "=+ é"), ("", "")]).requests ⟨"http://[::1]", []⟩ =
        [⟨.get, ⟨some "http", "[::1]", "/pets?a=b&x%26y=%3D%2B+%C3%A9&="⟩,
          [⟨"accept", "application/json", false⟩], []⟩] := by cbv
  obtain ⟨url, address, -, -, grown, sent⟩ :=
    added_pairs_are_read (σ := Unit) built parsed [("x&y", "=+ é"), ("", "")]
  have same : url.text = "http://[::1]/pets?a=b&x%26y=%3D%2B+%C3%A9&=#end" := by
    rw [computed] at address
    exact Except.ok.inj address ▸ text
  refine ⟨_, url, built, address, ?_, ?_, fun transport => ⟨?_, ?_⟩⟩
  · exact same
  · obtain ⟨query, known, -, read⟩ := grown (List.cons_ne_nil _ _)
    rw [known, Option.getD_some, read, Option.getD_some, before]
    rfl
  · rw [sent_eq_requests, request_eq]
    exact List.cons_ne_nil _ _
  · exact fun request mem => (sent _ transport () request mem).2

end Call

end PetClient
