import PetClient.Proofs.Call
import PetClient.Proofs.Origin

/-!
Where the requests of calls go: to the origin of the base address, whatever path and pairs a caller
gives.
-/

namespace PetClient

theorem Url.parts_addPairs (u : Url) (pairs : List (String × String)) :
    (u.addPairs pairs).scheme = u.scheme ∧ (u.addPairs pairs).authority = u.authority ∧
      (u.addPairs pairs).path = u.path := by
  unfold addPairs
  split <;> exact ⟨rfl, rfl, rfl⟩

/-- The origin is read from the scheme and the authority alone. -/
theorem Url.origin?_eq {u v : Url} (scheme : v.scheme = u.scheme)
    (authority : v.authority = u.authority) : v.origin? = u.origin? := by
  unfold origin?
  rw [scheme, authority]

theorem Url.exists_origin {text : String} {u : Url} (parsed : parse text = .ok u)
    (web : kindOf u.scheme = .web) : ∃ origin, u.origin? = some origin := by
  obtain ⟨⟨a, known, proper⟩, -⟩ := parts_of_web parsed web
  obtain ⟨host, known_host, -⟩ := proper.host
  unfold origin?
  rw [known, Option.bind_some, known_host]
  exact ⟨_, rfl⟩

theorem Url.scheme_fits {scheme : String} (web : scheme = "http" ∨ scheme = "https") :
    kindOf scheme = .web ∧ (∀ c ∈ scheme.toList, Http.Target.isSchemeChar c = true) ∧
      scheme.toList.length ≤ Http.Target.maxSchemeLength := by
  rcases web with rfl | rfl
  · refine ⟨by decide, ?_, ?_⟩ <;> simp <;> decide
  · refine ⟨by decide, ?_, ?_⟩ <;> simp <;> decide

namespace Call

variable {σ α : Type}

/-- A path that is set off from the base address leads to no other place: each request that is sent
has the scheme, the credentials, the host and the port of the base address alone. -/
theorem requests_keep_origin {config : Config} {client : Client}
    (built : Client.ofConfig config = .ok client) {base : Url}
    (parsed : Url.parse config.trimmedBaseUrl = .ok base)
    (web : base.scheme = "http" ∨ base.scheme = "https") (transport : Transport σ) (call : Call α)
    (off : ∀ c ∈ call.path.toList.head?, c = '/' ∨ c = '?' ∨ c = '#') (state : σ) :
    ∃ origin, base.origin? = some origin ∧
      ∀ request ∈ call.sent client transport state, request.target.origin? = some origin := by
  obtain ⟨kind, plain, short⟩ := Url.scheme_fits web
  obtain ⟨origin, known_origin⟩ := Url.exists_origin parsed kind
  refine ⟨origin, known_origin, fun request sent => ?_⟩
  rw [sent_eq_requests, mem_requests] at sent
  obtain ⟨url, prepared⟩ := sent
  obtain ⟨body, joined, target, -, parsed_joined, rfl, read, rfl⟩ := prepare_eq_ok prepared
  rw [(Client.ofConfig_eq_ok built).1] at parsed_joined
  have set_off : ∀ c ∈ call.path.toList.head?, Url.setsOff c = true := by
    intro c first
    exact Url.setsOff_iff.2 (off c first)
  obtain ⟨scheme, authority⟩ := Url.parse_append parsed kind set_off parsed_joined
  obtain ⟨⟨a, known, proper⟩, path⟩ := Url.parts_of_web parsed_joined (scheme ▸ kind)
  obtain ⟨scheme_kept, authority_kept, path_kept⟩ := joined.parts_addPairs call.pairs
  have same : (joined.addPairs call.pairs).origin? = some origin :=
    calc
      (joined.addPairs call.pairs).origin? = joined.origin? :=
        Url.origin?_eq scheme_kept authority_kept
      _ = base.origin? := Url.origin?_eq scheme authority
      _ = some origin := known_origin
  rw [← same]
  refine Url.origin?_target (authority_kept.trans known) proper ?_ ?_ ?_ read
  · rw [path_kept]
    exact path
  · rw [scheme_kept, scheme]
    exact plain
  · rw [scheme_kept, scheme]
    exact short

/-- Two slashes, another name, an at sign and a backslash lead to no other place. -/
theorem requests_keep_origin_slashes :
    ∃ client, Client.ofConfig { baseUrl := "http://me:pass@[::1]:8080/" } = .ok client ∧
      ∀ transport : Transport Unit,
        let call := get Json.any "//you@other\\third:9"
        call.sent client transport () ≠ [] ∧
          ∀ request ∈ call.sent client transport (),
            request.target.origin? = some ⟨"http", "me", "pass", "[::1]", some 8080⟩ := by
  let base : Url :=
    { scheme := "http"
      authority := some
        { username := "me"
          password := "pass"
          host := some (.ipv6 [0, 0, 0, 0, 0, 0, 0, 1])
          port := some 8080 }
      path := "/" }
  have built : Client.ofConfig { baseUrl := "http://me:pass@[::1]:8080/" } =
      .ok ⟨"http://me:pass@[::1]:8080", []⟩ := by cbv
  have parsed : Url.parse (Config.trimmedBaseUrl { baseUrl := "http://me:pass@[::1]:8080/" }) =
      .ok base := by cbv
  have origin : base.origin? = some ⟨"http", "me", "pass", "[::1]", some 8080⟩ := by cbv
  have request_eq : (get Json.any "//you@other\\third:9").requests
      ⟨"http://me:pass@[::1]:8080", []⟩ =
        [⟨.get, ⟨some "http", "me:pass@[::1]:8080", "//you@other/third:9"⟩,
          [⟨"accept", "application/json", false⟩], []⟩] := by cbv
  refine ⟨_, built, fun transport => ⟨?_, ?_⟩⟩
  · rw [sent_eq_requests, request_eq]
    exact List.cons_ne_nil _ _
  · have off : ∀ c ∈ (get Json.any "//you@other\\third:9").path.toList.head?,
        c = '/' ∨ c = '?' ∨ c = '#' := by
      intro c first
      have slash : (get Json.any "//you@other\\third:9").path.toList.head? = some '/' := by cbv
      rw [slash] at first
      cases first
      exact .inl rfl
    obtain ⟨kept, same, sent⟩ := requests_keep_origin built parsed (.inl rfl) transport
      (get Json.any "//you@other\\third:9") off ()
    rw [origin] at same
    cases same
    exact sent

end Call

end PetClient
