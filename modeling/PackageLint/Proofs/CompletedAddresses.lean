import PackageLint.Proofs.AddressForms

/-!
# The complete form of addresses

Completing an address rewrites its text, and the text is read again when the completed address is
checked. What each step does to the text is here told by the parts of the address: without a protocol,
`git+ssh` is put in front and the port becomes the first name of the path; one slash at the end goes;
a protocol without `git+` gets it; a path without `.git` gets it.

## What goes wrong

There is no protocol `git+git`, so an address over the bare git protocol is completed to a text that is
no address. And a final line feed, which an address may have, is no longer final when `.git` is put
behind it. Every other address is completed to one that is complete.

## Main definitions

* `Repository.IsOffered` — the addresses for which a completion is suggested
* `Repository.IsAccepted` — the addresses about which nothing is found
* `Repository.Layout.completed` — the parts of a completed address

## Main results

* `Repository.complete_complete_iff` — which completions are left as they are
* `Repository.toList_complete` — the text of a completed address
* `Repository.isAccepted_complete_iff` — which completions are accepted
-/

namespace PackageLint.Repository

open Text

/-! ### Judgements on addresses -/

/-- Whether a completion of an address is suggested. -/
def IsOffered (url : String) : Prop :=
  isGitAddress url = true ∧ isRetiredGithubAddress url = false ∧ isIncompleteSiteAddress url = true

/-- Whether nothing is found about an address. -/
def IsAccepted (url : String) : Prop :=
  isGitAddress url = true ∧ isRetiredGithubAddress url = false ∧ isIncompleteSiteAddress url = false

instance (url : String) : Decidable (IsOffered url) := inferInstanceAs (Decidable (_ ∧ _))

instance (url : String) : Decidable (IsAccepted url) := inferInstanceAs (Decidable (_ ∧ _))

/-! ### The steps of completion -/

variable {url s p : String} {l : Layout} {front rest : List Char} {c : Char}

/-- The text of an address with its protocol. -/
def explicit (url : String) : String :=
  if hasPart url "://" then url
  else "git+ssh://" ++ ((replaceFirst? [':'] ['/'] url.toList).map String.ofList).getD url

/-- A text with the start that the registry gives to protocols. -/
def registered (s : String) : String := if hasStart s "git+" then s else "git+" ++ s

/-- A text with the ending that the registry gives to paths. -/
def ended (s : String) : String := if hasEnd s ".git" then s else s ++ ".git"

theorem complete_eq (url : String) :
    complete url = ended (registered (dropEnd (explicit url) "/")) := rfl

theorem explicit_of_not_mem (hpart : ¬hasPart url "://" = true) (h : ':' ∉ url.toList) :
    explicit url = "git+ssh://" ++ url := by
  rw [explicit, if_neg hpart, replaceFirst?_of_not_mem h]
  rfl

theorem toList_explicit_of_colon (hpart : ¬hasPart url "://" = true) (h : ':' ∉ front)
    (hurl : url.toList = front ++ ':' :: rest) :
    (explicit url).toList = "git+ssh://".toList ++ (front ++ '/' :: rest) := by
  rw [explicit, if_neg hpart, hurl, replaceFirst?_append h]
  simp

theorem hasStart_registered (s : String) : hasStart (registered s) "git+" = true := by
  rw [registered]
  split
  · assumption
  · rw [hasStart_iff, String.toList_append]
    exact List.prefix_append _ _

theorem hasEnd_ended (s : String) : hasEnd (ended s) ".git" = true := by
  rw [ended]
  split
  · assumption
  · exact hasEnd_append _ _

theorem hasStart_complete (url : String) : hasStart (complete url) "git+" = true := by
  rw [complete_eq, ended]
  split
  · exact hasStart_registered _
  · rw [hasStart_iff, String.toList_append]
    exact (hasStart_iff.mp (hasStart_registered _)).trans (List.prefix_append _ _)

theorem hasEnd_complete (url : String) : hasEnd (complete url) ".git" = true := hasEnd_ended _

theorem complete_ne_empty (url : String) : complete url ≠ "" := by
  intro h
  have hstart := hasStart_complete url
  rw [h] at hstart
  exact absurd hstart (by decide)

theorem part_registered (t : String) : t.toList <:+: (registered t).toList := by
  rw [registered]
  split
  · exact List.infix_rfl
  · rw [String.toList_append]
    exact (List.suffix_append _ _).isInfix

theorem part_ended (t : String) : t.toList <:+: (ended t).toList := by
  rw [ended]
  split
  · exact List.infix_rfl
  · rw [String.toList_append]
    exact (List.prefix_append _ _).isInfix

/-- Once the protocol is there and the slash at the end is not, completing only adds to a text. -/
theorem part_complete (url : String) :
    (dropEnd (explicit url) "/").toList <:+: (complete url).toList :=
  (part_registered _).trans (part_ended _)

/-- Only the slash at the end is ever dropped, and to a text without a protocol more is added. -/
theorem length_lt_complete (h : ¬hasPart url "://" = true) : url.length < (complete url).length := by
  have hexplicit : (explicit url).length = url.length + 10 := by
    by_cases hcolon : ':' ∈ url.toList
    · obtain ⟨front, rest, hurl, hfront⟩ := List.eq_append_cons_of_mem hcolon
      have hlength := congrArg List.length (toList_explicit_of_colon h hfront hurl)
      rw [String.length_toList] at hlength
      rw [hlength, ← String.length_toList, hurl]
      simp
    · rw [explicit_of_not_mem h hcolon, String.length_append, Nat.add_comm]
      rfl
  have hdrop : (explicit url).length ≤ (dropEnd (explicit url) "/").length + 1 := by
    rcases dropEnd_eq_or (explicit url) "/" with heq | heq
    · rw [heq]
      exact Nat.le_succ _
    · have hlength := congrArg String.length heq
      rw [String.length_append] at hlength
      exact hlength.le
  have hpart := (part_complete url).length_le
  rw [String.length_toList, String.length_toList] at hpart
  omega

/-- Completing leaves the texts as they are that show a protocol, start with `git+` and end with
`.git`. -/
theorem complete_eq_self_iff :
    complete s = s ↔ hasPart s "://" = true ∧ hasStart s "git+" = true ∧ hasEnd s ".git" = true := by
  constructor
  · intro h
    refine ⟨?_, h ▸ hasStart_complete s, h ▸ hasEnd_complete s⟩
    by_contra hpart
    have hlength := length_lt_complete hpart
    rw [h] at hlength
    exact Nat.lt_irrefl _ hlength
  · rintro ⟨hpart, hstart, hend⟩
    have hslash : hasEnd s "/" = false := hasEnd_eq_false hend (by decide) (by decide)
    rw [complete_eq, explicit, if_pos hpart, dropEnd_of_not_hasEnd hslash, registered, if_pos hstart,
      ended, if_pos hend]

/-- What is completed is complete just if it shows a protocol. -/
theorem complete_complete_iff (url : String) :
    complete (complete url) = complete url ↔ hasPart (complete url) "://" = true := by
  rw [complete_eq_self_iff, and_iff_left ⟨hasStart_complete url, hasEnd_complete url⟩]

/-! ### The parts of a completed address -/

namespace Layout

/-- The parts of an address with its protocol. Where there was none, what reads like a port is the first
name of the path. -/
def explicit (l : Layout) : Layout :=
  match l.protocol with
  | some _ => l
  | none =>
    { l with
      protocol := some "git+ssh"
      port := none
      path := (match l.port with
        | some name => '/' :: name
        | none => []) ++ l.path }

/-- The parts of an address without a slash at the end. -/
def trimmed (l : Layout) : Layout :=
  { l with path := if l.path.getLast? = some '/' then l.path.dropLast else l.path }

/-- The parts of an address over a protocol of the registry. -/
def registered (l : Layout) : Layout := { l with protocol := l.protocol.map Repository.registered }

/-- The parts of an address with the ending of the registry. -/
def ended (l : Layout) : Layout :=
  { l with path := if ".git".toList <:+ l.path then l.path else l.path ++ ".git".toList }

/-- The parts of a completed address. -/
def completed (l : Layout) : Layout := l.explicit.trimmed.registered.ended

end Layout

theorem toList_explicit (h : l.IsAddress) (hurl : url.toList = l.chars) :
    (explicit url).toList = l.explicit.chars := by
  have hpart : hasPart url "://" = true ↔ l.protocol.isSome = true := by
    rw [hasPart_iff, hurl, Layout.chars]
    cases l.protocol with
    | none =>
      have hnone : ¬"://".toList <:+: l.authority ++ [] := h.not_infix_authority (by simp)
      rw [List.append_nil] at hnone
      exact iff_of_false hnone (by simp)
    | some p => exact iff_of_true ⟨p.toList, l.authority, rfl⟩ rfl
  cases hprotocol : l.protocol with
  | some p => rw [explicit, if_pos (hpart.mpr (by simp [hprotocol])), Layout.explicit, hprotocol, hurl]
  | none =>
    have hpart := mt hpart.mp (by simp [hprotocol])
    rw [Layout.chars, hprotocol] at hurl
    have hfront : ':' ∉ userText l.user ++ l.host := h.colon_not_mem_front
    cases hport : l.port with
    | none =>
      have hcolon : ':' ∉ url.toList := by
        have hpath : ':' ∉ l.path := h.not_mem_path (by decide) (by decide)
        simpa [hurl, schemeText, Layout.authority, hport, portText, and_assoc]
          using And.intro hfront hpath
      rw [explicit_of_not_mem hpart hcolon, String.toList_append, hurl]
      simp [Layout.explicit, Layout.chars, Layout.authority, hprotocol, hport, schemeText, portText]
    | some name =>
      have hsplit : url.toList = (userText l.user ++ l.host) ++ ':' :: (name ++ l.path) := by
        rw [hurl]
        simp [schemeText, Layout.authority, hport, portText]
      rw [toList_explicit_of_colon hpart hfront hsplit]
      simp [Layout.explicit, Layout.chars, Layout.authority, hprotocol, hport, schemeText, portText]

/-- What is in front of the path. -/
def Layout.beforePath (l : Layout) : List Char :=
  schemeText l.protocol ++ (userText l.user ++ (l.host ++ portText l.port))

theorem Layout.chars_eq (l : Layout) : l.chars = l.beforePath ++ l.path := by
  simp [chars, authority, beforePath]

theorem toList_dropEnd (hs : s.toList = l.chars) (hpath : l.path ≠ []) :
    (dropEnd s "/").toList = l.trimmed.chars := by
  rw [Layout.chars_eq] at hs
  have htrimmed : l.trimmed.chars
      = l.beforePath ++ if l.path.getLast? = some '/' then l.path.dropLast else l.path := by
    rw [Layout.chars_eq]
    rfl
  rw [htrimmed]
  split
  next hlast =>
    have hstem : s = String.ofList (l.beforePath ++ l.path.dropLast) ++ "/" := by
      refine String.toList_inj.mp ?_
      rw [hs, ← List.dropLast_append_getLast? _ hlast]
      simp
    rw [hstem, dropEnd_append, String.toList_ofList]
  next hlast =>
    have hend : hasEnd s "/" = false := by
      rw [Bool.eq_false_iff, ne_eq, hasEnd_iff_suffix, hs]
      rintro ⟨stem, hstem⟩
      have hlasts := congrArg List.getLast? hstem
      rw [List.getLast?_append_of_ne_nil _ hpath] at hlasts
      exact hlast (hlasts.symm.trans List.getLast?_concat)
    rw [dropEnd_of_not_hasEnd hend, hs]

theorem toList_registered (hs : s.toList = l.chars) (hp : l.protocol = some p) :
    (registered s).toList = l.registered.chars := by
  have hstart : hasStart s "git+" = hasStart p "git+" := by
    rw [Bool.eq_iff_iff, hasStart_iff, hasStart_iff, hs, Layout.chars, hp]
    have hword : ':' ∉ "git+".toList := by decide
    have hsep := prefix_append_sep hword p.toList ('/' :: '/' :: l.authority)
    simpa [schemeText] using hsep
  rw [registered, hstart, Layout.registered, Layout.chars, hp, Option.map_some, registered]
  split
  · rw [hs, Layout.chars, hp]
    rfl
  · rw [String.toList_append, hs, Layout.chars, hp]
    simp [schemeText, Layout.authority]

theorem toList_ended (hs : s.toList = l.chars) (hpath : l.path = '/' :: rest) :
    (ended s).toList = l.ended.chars := by
  have hword : '/' ∉ ".git".toList := by decide
  rw [Layout.chars_eq] at hs
  have hend : hasEnd s ".git" = true ↔ ".git".toList <:+ l.path := by
    rw [hasEnd_iff_suffix, hs, hpath, suffix_append_sep hword]
    exact (suffix_append_sep hword [] rest).symm
  have hended : l.ended.chars
      = l.beforePath ++ if ".git".toList <:+ l.path then l.path else l.path ++ ".git".toList := by
    rw [Layout.chars_eq]
    rfl
  rw [ended, hended]
  by_cases hgit : ".git".toList <:+ l.path
  · rw [if_pos (hend.mpr hgit), if_pos hgit, hs]
  · rw [if_neg (mt hend.mp hgit), if_neg hgit, String.toList_append, hs, List.append_assoc]

namespace Layout

theorem protocol_completed (l : Layout) :
    l.completed.protocol = some (Repository.registered (l.protocol.getD "git+ssh")) := by
  obtain ⟨protocol, user, host, port, path⟩ := l
  cases protocol <;> rfl

/-- A path with the ending of the registry is a path, whatever is left of it without its last slash. -/
theorem path_ended (hpath : l.path = '/' :: rest) (hrest : ∀ c ∈ rest, isPathChar c = true) :
    ∃ rest, l.ended.path = '/' :: rest ∧ IsRun isPathChar rest := by
  have hword : ".git".toList.all isPathChar = true := by decide
  rw [ended]
  by_cases hgit : ".git".toList <:+ l.path
  · rw [hpath] at hgit
    have hrun := (suffix_append_sep (by decide) [] rest).mp hgit
    refine ⟨rest, by simp only [hpath, if_pos hgit], ?_, hrest⟩
    rintro rfl
    simp at hrun
  · refine ⟨rest ++ ".git".toList, ?_, by simp, fun c hc => ?_⟩
    · simp only [if_neg hgit]
      rw [hpath, List.cons_append]
    · rcases List.mem_append.mp hc with hc | hc
      · exact hrest c hc
      · exact List.all_eq_true.mp hword c hc

theorem suffix_path_ended (l : Layout) : ".git".toList <:+ l.ended.path := by
  rw [ended]
  by_cases hgit : ".git".toList <:+ l.path
  · simpa only [if_pos hgit] using hgit
  · simpa only [if_neg hgit] using List.suffix_append l.path ".git".toList

theorem path_trimmed (hpath : l.path = '/' :: rest) (hrest : IsRun isPathChar rest) :
    ∃ rest, l.trimmed.path = '/' :: rest ∧ ∀ c ∈ rest, isPathChar c = true := by
  rw [trimmed]
  split
  · refine ⟨rest.dropLast, ?_, fun c hc => hrest.2 c ((List.dropLast_sublist _).subset hc)⟩
    rw [hpath, List.dropLast_cons_of_ne_nil hrest.1]
  · exact ⟨rest, hpath, hrest.2⟩

theorem IsAddress.path_explicit (h : l.IsAddress) :
    ∃ rest, l.explicit.path = '/' :: rest ∧ IsRun isPathChar rest := by
  obtain ⟨rest, hpath, hrest⟩ := h.path
  rw [explicit]
  split
  · exact ⟨rest, hpath, hrest⟩
  · cases hport : l.port with
    | none => exact ⟨rest, hpath, hrest⟩
    | some name =>
      refine ⟨name ++ l.path, rfl, by simp [hpath], fun c hc => ?_⟩
      rcases List.mem_append.mp hc with hc | hc
      · exact isPathChar_of_isPortChar ((h.port name hport).2 c hc)
      · rw [hpath] at hc
        rcases List.mem_cons.mp hc with rfl | hc
        · decide
        · exact hrest.2 c hc

/-- The parts of a completed address are those of an address, unless the protocol was bare. -/
theorem IsAddress.completed_iff (h : l.IsAddress) :
    l.completed.IsAddress ↔ l.protocol ≠ some "git" := by
  constructor
  · intro hc hprotocol
    have hmem := hc.protocol_mem _ l.protocol_completed
    rw [hprotocol] at hmem
    exact absurd hmem (by decide)
  · intro hbare
    have hmem : Repository.registered (l.protocol.getD "git+ssh") ∈ protocols := by
      have hall : ∀ p ∈ protocols, p ≠ "git" → Repository.registered p ∈ protocols := by decide
      cases hprotocol : l.protocol with
      | none => decide
      | some p => exact hall p (h.protocol_mem p hprotocol) fun hp => hbare (hp ▸ hprotocol)
    obtain ⟨rest, hpath, hrest⟩ := h.path_explicit
    obtain ⟨rest, hpath, hrest⟩ := path_trimmed hpath hrest
    refine ⟨?_, ?_, ?_, ?_, path_ended (l := l.explicit.trimmed.registered) hpath hrest⟩
    · rw [l.protocol_completed]
      rintro p ⟨⟩
      exact hmem
    all_goals
      obtain ⟨protocol, user, host, port, path⟩ := l
      cases protocol
    · exact h.user
    · exact h.user
    · exact h.host
    · exact h.host
    · rintro name ⟨⟩
    · exact h.port

end Layout

/-- Completing the text of an address gives the text of the completed address. -/
theorem toList_complete (h : l.IsAddress) (hurl : url.toList = l.chars) :
    (complete url).toList = l.completed.chars := by
  obtain ⟨rest, hpath, hrest⟩ := h.path_explicit
  obtain ⟨p, hp⟩ : ∃ p, l.explicit.protocol = some p := by
    obtain ⟨protocol, user, host, port, path⟩ := l
    cases protocol <;> exact ⟨_, rfl⟩
  have htrimmed := toList_dropEnd (toList_explicit h hurl) (by simp [hpath])
  obtain ⟨rest, hpath, -⟩ := Layout.path_trimmed hpath hrest
  exact toList_ended (toList_registered htrimmed hp) hpath

/-! ### Completions that are accepted -/

theorem isAccepted_of_completed (h : l.completed.IsAddress)
    (hurl : (complete url).toList = l.completed.chars) : IsAccepted (complete url) := by
  have hparse : parse? (complete url) = some l.completed.address :=
    parse?_eq_some_iff.mpr ⟨_, h, rfl, Or.inl hurl⟩
  have hpart : hasPart (complete url) "://" = true := by
    rw [hasPart_iff, hurl, Layout.chars, l.protocol_completed]
    exact ⟨_, l.completed.authority, rfl⟩
  have horigin : showsOrigin (complete url) = true := by simp [showsOrigin, hpart]
  refine ⟨?_, ?_, ?_⟩
  · simp [isGitAddress, hparse, horigin]
  · have hbare : registered (l.protocol.getD "git+ssh") ≠ "git" := by
      intro heq
      have hstart := hasStart_registered (l.protocol.getD "git+ssh")
      rw [heq] at hstart
      exact absurd hstart (by decide)
    simp [isRetiredGithubAddress, hparse, Layout.address, l.protocol_completed, hbare]
  · have hgit : ".git".toList.isSuffixOf l.completed.path = true :=
      List.isSuffixOf_iff_suffix.mpr l.explicit.trimmed.registered.suffix_path_ended
    simp only [isIncompleteSiteAddress, hparse, Layout.address, hasStart_complete, hgit]
    simp

/-- An address over the bare git protocol is not completed to an address. -/
theorem parse?_complete_of_bare (h : l.IsAddress) (hbare : l.protocol = some "git")
    (hurl : url.toList = l.chars) : parse? (complete url) = none := by
  rw [Option.eq_none_iff_forall_ne_some]
  intro address hparse
  obtain ⟨other, hother, -, htext⟩ := parse?_eq_some_iff.mp hparse
  rw [toList_complete h hurl] at htext
  obtain ⟨lf, hlf, heq⟩ := exists_ending htext
  rw [Layout.chars, l.protocol_completed, hbare] at heq
  have hprotocol := hother.protocol_eq (by decide) hlf heq
  exact absurd (hother.protocol_mem _ hprotocol) (by decide)

/-- Completing only takes slashes and colons away. -/
theorem mem_complete (hc : c ∈ url.toList) (hslash : c ≠ '/') (hcolon : c ≠ ':') :
    c ∈ (complete url).toList := by
  have hexplicit : c ∈ (explicit url).toList := by
    by_cases hpart : hasPart url "://" = true
    · rwa [explicit, if_pos hpart]
    · by_cases hmem : ':' ∈ url.toList
      · obtain ⟨front, rest, hurl, hfront⟩ := List.eq_append_cons_of_mem hmem
        rw [toList_explicit_of_colon hpart hfront hurl]
        rw [hurl] at hc
        have hparts : c ∈ front ∨ c ∈ rest := by simpa [hcolon] using hc
        rcases hparts with h | h <;> simp [h]
      · rw [explicit_of_not_mem hpart hmem, String.toList_append]
        exact List.mem_append_right _ hc
  refine (part_complete url).subset ?_
  rcases dropEnd_eq_or (explicit url) "/" with heq | heq
  · rwa [heq]
  · rw [heq] at hexplicit
    simpa [hslash] using hexplicit

/-- A text with a line feed is not completed to an address. -/
theorem parse?_complete_of_feed (hfeed : '\n' ∈ url.toList) : parse? (complete url) = none := by
  rw [Option.eq_none_iff_forall_ne_some]
  intro address hparse
  obtain ⟨l, hl, -, htext⟩ := parse?_eq_some_iff.mp hparse
  have hmem := mem_complete hfeed (by decide) (by decide)
  rcases htext with htext | htext
  · exact hl.feed_not_mem_chars (htext ▸ hmem)
  · obtain ⟨stem, hstem⟩ := hasEnd_iff_suffix.mp (hasEnd_complete url)
    have hlasts := congrArg List.getLast? (hstem.trans htext)
    rw [List.getLast?_concat, List.getLast?_append_of_ne_nil _ (by simp)] at hlasts
    exact absurd hlasts (by decide)

/-- Of a text with something behind `://`, the slash at the end does not belong to it. -/
theorem hasPart_complete_of_explicit {before after : List Char}
    (hs : (explicit url).toList = before ++ ("://".toList ++ after)) (hne : after ≠ []) :
    hasPart (complete url) "://" = true := by
  rw [hasPart_iff]
  refine List.IsInfix.trans ?_ (part_complete url)
  rcases dropEnd_eq_or (explicit url) "/" with heq | heq
  · rw [heq, hs]
    exact ⟨before, after, by simp⟩
  · have hlast := congrArg (fun t : String => t.toList.dropLast) heq
    rw [hs, List.dropLast_append_of_ne_nil (by simp), List.dropLast_append_of_ne_nil hne] at hlast
    exact ⟨before, after.dropLast, by simpa using hlast⟩

/-- The completion of an address is left as it is when it is completed again. -/
theorem complete_complete_of_parse? (h : (parse? url).isSome = true) :
    complete (complete url) = complete url := by
  obtain ⟨address, hparse⟩ := Option.isSome_iff_exists.mp h
  obtain ⟨l, hl, -, htext⟩ := parse?_eq_some_iff.mp hparse
  obtain ⟨lf, hlf, htext⟩ := exists_ending htext
  have hauthority : l.authority ++ lf ≠ [] := by simp [Layout.authority, hl.host.1]
  rw [Layout.chars, List.append_assoc] at htext
  rw [complete_complete_iff]
  cases hprotocol : l.protocol with
  | some p =>
    rw [hprotocol, schemeText, List.append_assoc] at htext
    have hpart : hasPart url "://" = true := by
      rw [hasPart_iff, htext]
      exact ⟨p.toList, l.authority ++ lf, by simp⟩
    exact hasPart_complete_of_explicit (by rw [explicit, if_pos hpart, htext]) hauthority
  | none =>
    rw [hprotocol, schemeText, List.nil_append] at htext
    have hpart : ¬hasPart url "://" = true := by
      rw [hasPart_iff, htext]
      exact hl.not_infix_authority hlf
    by_cases hmem : ':' ∈ url.toList
    · obtain ⟨front, rest, hurl, hfront⟩ := List.eq_append_cons_of_mem hmem
      have hexplicit : (explicit url).toList
          = "git+ssh".toList ++ ("://".toList ++ (front ++ '/' :: rest)) := by
        rw [toList_explicit_of_colon hpart hfront hurl]
        rfl
      exact hasPart_complete_of_explicit hexplicit (by simp)
    · have hexplicit : (explicit url).toList
          = "git+ssh".toList ++ ("://".toList ++ url.toList) := by
        rw [explicit_of_not_mem hpart hmem, String.toList_append]
        rfl
      exact hasPart_complete_of_explicit hexplicit (by rwa [htext])

/-- The completion of an address is accepted unless the protocol is bare git or the text ends with a line
feed, and then it is not even an address. -/
theorem isAccepted_complete_iff (h : (parse? url).isSome = true) :
    (IsAccepted (complete url) ↔ ¬hasStart url "git://" = true ∧ ¬hasEnd url "\n" = true)
      ∧ (IsAccepted (complete url) ↔ isGitAddress (complete url) = true) := by
  obtain ⟨address, hparse⟩ := Option.isSome_iff_exists.mp h
  obtain ⟨l, hl, -, htext⟩ := parse?_eq_some_iff.mp hparse
  have hbare : hasStart url "git://" = true ↔ l.protocol = some "git" := by
    rw [hasStart_iff]
    constructor
    · rintro ⟨rest, hrest⟩
      obtain ⟨lf, hlf, hchars⟩ := exists_ending htext
      exact hl.protocol_eq (by decide) hlf (hrest.trans hchars)
    · intro hprotocol
      have hstart : "git://".toList <+: l.chars := by
        rw [Layout.chars, hprotocol]
        exact ⟨l.authority, rfl⟩
      rcases htext with htext | htext <;> rw [htext]
      · exact hstart
      · exact hstart.trans (List.prefix_append _ _)
  have hfeed : hasEnd url "\n" = true ↔ '\n' ∈ url.toList := by
    rw [hasEnd_iff_suffix]
    refine ⟨fun hend => hend.subset (by decide), fun hmem => ?_⟩
    rcases htext with htext | htext
    · exact absurd (htext ▸ hmem) hl.feed_not_mem_chars
    · exact ⟨l.chars, htext.symm⟩
  have hrefused : parse? (complete url) = none →
      ¬IsAccepted (complete url) ∧ ¬isGitAddress (complete url) = true := by
    intro hnone
    have hgit : ¬isGitAddress (complete url) = true := by simp [isGitAddress, hnone]
    exact ⟨fun haccepted => hgit haccepted.1, hgit⟩
  rw [hbare, hfeed]
  by_cases hmem : '\n' ∈ url.toList
  · obtain ⟨hnot, hgit⟩ := hrefused (parse?_complete_of_feed hmem)
    exact ⟨iff_of_false hnot fun hgood => hgood.2 hmem, iff_of_false hnot hgit⟩
  have hchars : url.toList = l.chars :=
    htext.resolve_right fun htext => hmem (htext ▸ List.mem_concat_self)
  by_cases hprotocol : l.protocol = some "git"
  · obtain ⟨hnot, hgit⟩ := hrefused (parse?_complete_of_bare hl hprotocol hchars)
    exact ⟨iff_of_false hnot fun hgood => hgood.1 hprotocol, iff_of_false hnot hgit⟩
  · have haccepted := isAccepted_of_completed (hl.completed_iff.mpr hprotocol)
      (toList_complete hl hchars)
    exact ⟨iff_of_true haccepted ⟨hprotocol, hmem⟩, iff_of_true haccepted haccepted.1⟩

end PackageLint.Repository
