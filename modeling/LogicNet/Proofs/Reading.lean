import LogicNet.Proofs.Grammar

/-!
# The readers of declarations read the grammar

A reader of a declaration looks at one token at a time and never goes back. That it reads its form
takes three things: what has the form is read, nothing else is, and where reading fails, the tokens
passed over begin the form but do not with the token at fault.

The last part is what makes the place of an error exact. It holds of a sequence of readers because
the parts of a sequence can be told apart: if more of the form could follow, the reader of the first
part would have taken its part. An optional part can be told from what follows by its mark.
-/

namespace LogicNet

open Text (Position)

/-- An error inside a declaration, which costs that declaration and nothing else. -/
def SyntaxError.InDeclaration (e : SyntaxError) : Prop :=
  e.plan.advance = false ∧ e.plan.recovery = .inBlock

namespace Reader

/-- `r` reads what has the form `F`. -/
structure Reads {α : Type} (r : Reader α) (F : Form α) : Prop where
  /-- Something has the form. -/
  inhabited : ∃ a ts, F a ts
  /-- What has the form is read, whatever follows. -/
  takes : ∀ {a us}, F a us → ∀ rest, r (us ++ rest) = .ok a rest
  /-- Nothing else is read. -/
  taken : ∀ {ts a rest}, r ts = .ok a rest → ∃ us, F a us ∧ ts = us ++ rest
  /-- Reading fails at the first token with which nothing of the form begins. -/
  stops : ∀ {ts e rest}, r ts = .error e rest →
    e.InDeclaration ∧ ∃ pre, ts = pre ++ rest ∧ F.Begins pre ∧
      ∀ t ∈ rest.head?, ¬ F.Begins (pre ++ [t])

variable {α β : Type}

theorem Reads.congr {r : Reader α} {F G : Form α} (h : r.Reads F) (hFG : ∀ a ts, F a ts ↔ G a ts) :
    r.Reads G := by
  have : F = G := funext fun a => funext fun ts => propext (hFG a ts)
  exact this ▸ h

/-! ## Single tokens -/

theorem reads_pure (a : α) : (pure a : Reader α).Reads fun b ts => b = a ∧ ts = [] where
  inhabited := ⟨a, [], rfl, rfl⟩
  takes := by
    intro b us h rest
    obtain ⟨rfl, rfl⟩ := h
    rfl
  taken := by
    intro ts b rest h
    cases h
    exact ⟨[], ⟨rfl, rfl⟩, rfl⟩
  stops := by
    intro ts e rest h
    cases h

/-- The single token that a value is. -/
def One (token : α → Token) : Form α := fun a ts => ts = [token a]

/-- A mark, wherever it stands. -/
def Mark (lexeme : Lexeme) : Form Unit := fun _ ts => ∃ p, ts = [⟨lexeme, p⟩]

/-- A single token from which `f` makes a value. -/
def Made (f : Token → Option α) : Form α := fun a ts => ∃ t, ts = [t] ∧ f t = some a

/--
A reader of one token reads it, if it takes the tokens with a value and leaves the others where
they are. There is some such token, so that nothing is a beginning of the form.
-/
theorem reads_made {r : Reader α} {f : Token → Option α} {e : SyntaxError} (he : e.InDeclaration)
    (some_value : ∃ t a, f t = some a) (hnil : r [] = .error e [])
    (hcons : ∀ t ts, r (t :: ts) = match f t with
      | some a => .ok a ts
      | none => .error e (t :: ts)) : r.Reads (Made f) where
  inhabited := by
    obtain ⟨t, a, ht⟩ := some_value
    exact ⟨a, [t], t, rfl, ht⟩
  takes := by
    intro a us h rest
    obtain ⟨t, rfl, ht⟩ := h
    simp [hcons, ht]
  taken := by
    intro ts a rest h
    cases ts with
    | nil =>
        rw [hnil] at h
        cases h
    | cons t ts =>
        rw [hcons] at h
        split at h
        · next a' ht =>
          cases h
          exact ⟨[t], ⟨t, rfl, ht⟩, rfl⟩
        · cases h
  stops := by
    obtain ⟨t₀, a₀, h₀⟩ := some_value
    have hbegins : (Made f).Begins [] := ⟨a₀, [t₀], t₀, rfl, h₀⟩
    intro ts e' rest h
    cases ts with
    | nil =>
        rw [hnil] at h
        cases h
        exact ⟨he, [], rfl, hbegins, by simp⟩
    | cons t ts =>
        rw [hcons] at h
        split at h
        · cases h
        · next ht =>
          cases h
          refine ⟨he, [], rfl, hbegins, ?_⟩
          intro u hu hmore
          obtain ⟨a, us, v, hv, hfv⟩ := hmore
          cases hu
          cases hv
          rw [ht] at hfv
          cases hfv

theorem reads_mark (lexeme : Lexeme) {e : SyntaxError} (he : e.InDeclaration) :
    (mark lexeme e).Reads (Mark lexeme) := by
  have h : (mark lexeme e).Reads (Made fun t => if t.lexeme = lexeme then some () else none) := by
    refine reads_made he ⟨⟨lexeme, .start⟩, (), by simp⟩ rfl fun t ts => ?_
    simp only [mark]
    split <;> simp_all
  refine h.congr fun _ ts => ⟨?_, ?_⟩
  · intro hmade
    obtain ⟨t, rfl, ht⟩ := hmade
    simp only [Option.ite_none_right_eq_some, and_true] at ht
    exact ⟨t.pos, by rw [← ht]⟩
  · intro hmark
    obtain ⟨p, rfl⟩ := hmark
    exact ⟨_, rfl, by simp⟩

theorem reads_word {e : SyntaxError} (he : e.InDeclaration) :
    (word e).Reads (One Word.token) := by
  have h : (word e).Reads (Made fun t => t.name?.map fun text => ⟨text, t.pos⟩) := by
    refine reads_made he ⟨⟨.name "", .start⟩, _, rfl⟩ rfl fun t ts => ?_
    simp only [word, Token.name?]
    cases t.lexeme <;> rfl
  refine h.congr fun w ts => ⟨?_, fun hone => ⟨_, hone, rfl⟩⟩
  intro hmade
  obtain ⟨⟨lexeme, pos⟩, rfl, ht⟩ := hmade
  cases lexeme <;> cases ht
  rfl

/-- The number in a token, if it is one. -/
def numeral? : Token → Option Numeral
  | ⟨.number value, pos⟩ => some ⟨value, pos⟩
  | _ => none

theorem reads_numeral {e : SyntaxError} (he : e.InDeclaration) :
    (numeral e).Reads (One Numeral.token) := by
  have h : (numeral e).Reads (Made numeral?) := by
    refine reads_made he ⟨⟨.number 0, .start⟩, _, rfl⟩ rfl fun ⟨lexeme, pos⟩ ts => ?_
    cases lexeme <;> rfl
  refine h.congr fun n ts => ⟨?_, fun hone => ⟨_, hone, rfl⟩⟩
  intro hmade
  obtain ⟨⟨lexeme, pos⟩, rfl, ht⟩ := hmade
  cases lexeme <;> cases ht
  rfl

/-! ## Sequences -/

theorem bind_of_ok {r : Reader α} {f : α → Reader β} {ts us : List Token} {a : α}
    (h : r ts = .ok a us) : (r >>= f) ts = f a us := by
  simp only [Bind.bind, EStateM.bind, h]

theorem bind_of_error {r : Reader α} {f : α → Reader β} {ts us : List Token} {e : SyntaxError}
    (h : r ts = .error e us) : (r >>= f) ts = .error e us := by
  simp only [Bind.bind, EStateM.bind, h]

/-- Something of the one form, and behind it something of the form that goes with its value. -/
def Then (F : Form α) (G : α → Form β) : Form β :=
  fun b ts => ∃ a us vs, ts = us ++ vs ∧ F a us ∧ G a b vs

theorem then_mark_iff {G : Unit → Form β} {lexeme : Lexeme} {b : β} {ts : List Token} :
    Then (Mark lexeme) G b ts ↔ ∃ p vs, ts = ⟨lexeme, p⟩ :: vs ∧ G () b vs := by
  refine ⟨?_, ?_⟩
  · intro h
    obtain ⟨_, _, vs, rfl, ⟨p, rfl⟩, hG⟩ := h
    exact ⟨p, vs, rfl, hG⟩
  · intro h
    obtain ⟨p, vs, rfl, hG⟩ := h
    exact ⟨(), [_], vs, rfl, ⟨p, rfl⟩, hG⟩

theorem then_one_iff {token : α → Token} {G : α → Form β} {b : β} {ts : List Token} :
    Then (One token) G b ts ↔ ∃ a vs, ts = token a :: vs ∧ G a b vs := by
  refine ⟨?_, ?_⟩
  · intro h
    obtain ⟨a, _, vs, rfl, rfl, hG⟩ := h
    exact ⟨a, vs, rfl, hG⟩
  · intro h
    obtain ⟨a, vs, rfl, hG⟩ := h
    exact ⟨a, [_], vs, rfl, rfl, hG⟩

/-- A beginning of a sequence lies in the first part, or has the first part in front. -/
theorem Then.begins_cases {F : Form α} {G : α → Form β} {ts : List Token}
    (h : (Then F G).Begins ts) :
    F.Begins ts ∨ ∃ a us vs, ts = us ++ vs ∧ F a us ∧ (G a).Begins vs := by
  obtain ⟨b, ws, a, us, vs, heq, hF, hG⟩ := h
  rcases List.append_eq_append_iff.mp heq with ⟨xs, rfl, rfl⟩ | ⟨xs, rfl, rfl⟩
  · exact .inl ⟨a, xs, hF⟩
  · exact .inr ⟨a, us, xs, rfl, hF, b, ws, hG⟩

/-- A form that is read is unambiguous, and nothing of it starts with something else of it. -/
theorem Reads.unique {r : Reader α} {F : Form α} (hr : r.Reads F) {a a' : α}
    {us us' vs vs' : List Token} (h : F a us) (h' : F a' us') (heq : us ++ vs = us' ++ vs') :
    a = a' ∧ vs = vs' := by
  have hrun := hr.takes h vs
  rw [heq, hr.takes h' vs'] at hrun
  cases hrun
  exact ⟨rfl, rfl⟩

theorem Reads.bind {r : Reader α} {f : α → Reader β} {F : Form α} {G : α → Form β}
    (hr : r.Reads F) (hf : ∀ a, (f a).Reads (G a)) : (r >>= f).Reads (Then F G) where
  inhabited := by
    obtain ⟨a, us, hF⟩ := hr.inhabited
    obtain ⟨b, vs, hG⟩ := (hf a).inhabited
    exact ⟨b, us ++ vs, a, us, vs, rfl, hF, hG⟩
  takes := by
    intro b ts h rest
    obtain ⟨a, us, vs, rfl, hF, hG⟩ := h
    rw [List.append_assoc, bind_of_ok (hr.takes hF _)]
    exact (hf a).takes hG rest
  taken := by
    intro ts b rest h
    cases hrun : r ts with
    | ok a ws =>
        rw [bind_of_ok hrun] at h
        obtain ⟨us, hF, rfl⟩ := hr.taken hrun
        obtain ⟨vs, hG, rfl⟩ := (hf a).taken h
        exact ⟨us ++ vs, ⟨a, us, vs, rfl, hF, hG⟩, by rw [List.append_assoc]⟩
    | error e ws =>
        rw [bind_of_error hrun] at h
        cases h
  stops := by
    intro ts e rest h
    cases hrun : r ts with
    | ok a ws =>
        rw [bind_of_ok hrun] at h
        obtain ⟨us, hF, rfl⟩ := hr.taken hrun
        obtain ⟨he, pre, rfl, ⟨b, vs, hG⟩, hstop⟩ := (hf a).stops h
        refine ⟨he, us ++ pre, by rw [List.append_assoc],
          ⟨b, vs, a, us, pre ++ vs, by rw [List.append_assoc], hF, hG⟩, ?_⟩
        intro t ht hbegins
        rcases Then.begins_cases hbegins with ⟨a', vs', hF'⟩ | ⟨a', us', vs', heq, hF', hbegins'⟩
        · -- the first part was read up to `us`, so it cannot go on behind `us`
          have heq : us ++ (pre ++ t :: vs') = us ++ pre ++ [t] ++ vs' ++ [] := by simp
          have := (hr.unique hF hF' heq).2
          simp at this
        · rw [List.append_assoc] at heq
          obtain ⟨rfl, rfl⟩ := hr.unique hF hF' heq
          exact hstop t ht hbegins'
    | error e' ws =>
        rw [bind_of_error hrun] at h
        cases h
        obtain ⟨he, pre, rfl, ⟨a, us, hF⟩, hstop⟩ := hr.stops hrun
        obtain ⟨b, vs, hG⟩ := (hf a).inhabited
        refine ⟨he, pre, rfl, ⟨b, us ++ vs, a, pre ++ us, vs, by simp, hF, hG⟩, ?_⟩
        intro t ht hbegins
        rcases Then.begins_cases hbegins with hbegins' | ⟨a', us', vs', heq, hF', -⟩
        · exact hstop t ht hbegins'
        · -- a first part in front of `t` would have been read
          obtain ⟨ws', rfl⟩ := List.head?_eq_some_iff.mp ht
          have hpre : pre ++ t :: ws' = us' ++ (vs' ++ ws') := by
            rw [← List.append_assoc, ← heq, List.append_assoc, List.singleton_append]
          rw [hpre, hr.takes hF'] at hrun
          cases hrun

/-! ## Optional parts -/

/-- Something of the one form, or a mark and behind it something of the other. -/
def Or (lexeme : Lexeme) (F G : Form α) : Form α :=
  fun a ts => F a ts ∨ ∃ p us, ts = ⟨lexeme, p⟩ :: us ∧ G a us

theorem after?_bind_of_mark {r : Reader α} {f : Option α → Reader β} {lexeme : Lexeme}
    {p : Position} {ts : List Token} :
    (after? lexeme r >>= f) (⟨lexeme, p⟩ :: ts) = (r >>= fun a => f (some a)) ts := by
  simp only [Bind.bind, EStateM.bind, after?, Functor.map, EStateM.map, if_pos]
  cases r ts <;> rfl

theorem after?_bind_of_ne {r : Reader α} {f : Option α → Reader β} {lexeme : Lexeme}
    {ts : List Token} (h : ∀ t ∈ ts.head?, t.lexeme ≠ lexeme) :
    (after? lexeme r >>= f) ts = f none ts := by
  cases ts with
  | nil => rfl
  | cons t ts => exact bind_of_ok (if_neg (h t rfl))

theorem starts_of_not {lexeme : Lexeme} {ts : List Token}
    (h : ¬ ∀ t ∈ ts.head?, t.lexeme ≠ lexeme) : ∃ p us, ts = ⟨lexeme, p⟩ :: us := by
  cases ts with
  | nil => simp at h
  | cons t ts =>
      simp only [List.head?_cons, Option.mem_some_iff, forall_eq', Decidable.not_not] at h
      exact ⟨t.pos, ts, by rw [← h]⟩

/--
An optional part and what follows it are read, if what follows where the part is left out does not
start with the mark of the part.
-/
theorem Reads.after?_bind {r : Reader α} {f : Option α → Reader β} {F : Form β} {G : Form β}
    {lexeme : Lexeme} (hF : (f none).Reads F) (hG : (r >>= fun a => f (some a)).Reads G)
    (apart : ∀ {b ts}, F b ts → ∃ t us, ts = t :: us ∧ t.lexeme ≠ lexeme) :
    (after? lexeme r >>= f).Reads (Or lexeme F G) where
  inhabited := by
    obtain ⟨b, ts, hb⟩ := hF.inhabited
    exact ⟨b, ts, .inl hb⟩
  takes := by
    intro b ts h rest
    rcases h with h | ⟨p, us, rfl, h⟩
    · obtain ⟨t, us, rfl, ht⟩ := apart h
      rw [after?_bind_of_ne (by simpa using ht)]
      exact hF.takes h rest
    · rw [List.cons_append, after?_bind_of_mark]
      exact hG.takes h rest
  taken := by
    intro ts b rest h
    by_cases hts : ∀ t ∈ ts.head?, t.lexeme ≠ lexeme
    · rw [after?_bind_of_ne hts] at h
      obtain ⟨us, hus, rfl⟩ := hF.taken h
      exact ⟨us, .inl hus, rfl⟩
    · obtain ⟨p, ts, rfl⟩ := starts_of_not hts
      rw [after?_bind_of_mark] at h
      obtain ⟨us, hus, rfl⟩ := hG.taken h
      exact ⟨⟨lexeme, p⟩ :: us, .inr ⟨p, us, rfl, hus⟩, rfl⟩
  stops := by
    intro ts e rest h
    by_cases hts : ∀ t ∈ ts.head?, t.lexeme ≠ lexeme
    · rw [after?_bind_of_ne hts] at h
      obtain ⟨he, pre, rfl, ⟨b, us, hb⟩, hstop⟩ := hF.stops h
      refine ⟨he, pre, rfl, ⟨b, us, .inl hb⟩, ?_⟩
      intro t ht hmore
      obtain ⟨b', us', h' | ⟨p, vs, heq, -⟩⟩ := hmore
      · exact hstop t ht ⟨b', us', h'⟩
      · -- the tokens would start with the mark
        obtain ⟨rest, rfl⟩ := List.head?_eq_some_iff.mp ht
        have hhead : (pre ++ t :: rest).head? = some ⟨lexeme, p⟩ := by
          cases pre with
          | nil => cases heq; rfl
          | cons u pre => cases heq; rfl
        exact hts _ hhead rfl
    · obtain ⟨p, ts, rfl⟩ := starts_of_not hts
      rw [after?_bind_of_mark] at h
      obtain ⟨he, pre, rfl, ⟨b, us, hb⟩, hstop⟩ := hG.stops h
      refine ⟨he, ⟨lexeme, p⟩ :: pre, rfl, ⟨b, us, .inr ⟨p, _, rfl, hb⟩⟩, ?_⟩
      intro t ht hmore
      obtain ⟨b', us', h' | ⟨p', vs, heq, h'⟩⟩ := hmore
      · obtain ⟨t', vs, heq, hne⟩ := apart h'
        cases heq
        exact hne rfl
      · cases heq
        exact hstop t ht ⟨b', us', h'⟩

end Reader

/-! ## The readers of the three blocks -/

open Reader in
theorem DeviceDecl.reads_reader (kind : Word) :
    (DeviceDecl.reader kind).Reads fun d ts =>
      Block.devices.Declares (.device d) (kind.token :: ts) := by
  have behind (q : Option Numeral) :=
    (reads_mark .equals (e := .noEquals) ⟨rfl, rfl⟩).bind fun _ =>
      (reads_word (e := .invalidDeviceName) ⟨rfl, rfl⟩).bind fun name =>
        (reads_mark .semicolon (e := .noSemicolon) ⟨rfl, rfl⟩).bind fun _ =>
          reads_pure (⟨kind, q, name⟩ : DeviceDecl)
  have number := reads_numeral (e := .noNumber) ⟨rfl, rfl⟩
  refine (Reads.after?_bind (behind none) (number.bind fun n => behind (some n)) ?_).congr ?_
  · intro d ts h
    obtain ⟨_, _, rfl, -⟩ := then_mark_iff.mp h
    exact ⟨_, _, rfl, by simp⟩
  · intro d ts
    simp only [Reader.Or, then_mark_iff, then_one_iff]
    refine ⟨?_, ?_⟩
    · intro h
      rcases h with ⟨_, _, rfl, _, _, rfl, _, _, rfl, rfl, rfl⟩ |
        ⟨_, _, rfl, _, _, rfl, _, _, rfl, _, _, rfl, _, _, rfl, rfl, rfl⟩
      · exact .device
      · exact .qualifiedDevice
    · intro h
      generalize hus : kind.token :: ts = us at h
      cases h with
      | device =>
          obtain ⟨hk, rfl⟩ := List.cons.inj hus
          obtain rfl := Word.token_inj.mp hk
          exact .inl ⟨_, _, rfl, _, _, rfl, _, _, rfl, rfl, rfl⟩
      | qualifiedDevice =>
          obtain ⟨hk, rfl⟩ := List.cons.inj hus
          obtain rfl := Word.token_inj.mp hk
          exact .inr ⟨_, _, rfl, _, _, rfl, _, _, rfl, _, _, rfl, _, _, rfl, rfl, rfl⟩

open Reader in
theorem ConnectionDecl.reads_reader (outDevice : Word) :
    (ConnectionDecl.reader outDevice).Reads fun d ts =>
      Block.connections.Declares (.connection d) (outDevice.token :: ts) := by
  have behind (outPin : Option Word) :=
    (reads_mark .dash (e := .noDash) ⟨rfl, rfl⟩).bind fun _ =>
      (reads_word (e := .invalidDeviceName) ⟨rfl, rfl⟩).bind fun inDevice =>
        (reads_mark .dot (e := .noDot) ⟨rfl, rfl⟩).bind fun _ =>
          (reads_word (e := .invalidInputLabel) ⟨rfl, rfl⟩).bind fun inPin =>
            (reads_mark .semicolon (e := .noSemicolon) ⟨rfl, rfl⟩).bind fun _ =>
              reads_pure (⟨outDevice, outPin, inDevice, inPin⟩ : ConnectionDecl)
  have pin := reads_word (e := .invalidOutputLabel) ⟨rfl, rfl⟩
  refine (Reads.after?_bind (behind none) (pin.bind fun w => behind (some w)) ?_).congr ?_
  · intro d ts h
    obtain ⟨_, _, rfl, -⟩ := then_mark_iff.mp h
    exact ⟨_, _, rfl, by simp⟩
  · intro d ts
    simp only [Reader.Or, then_mark_iff, then_one_iff]
    refine ⟨?_, ?_⟩
    · intro h
      rcases h with ⟨_, _, rfl, _, _, rfl, _, _, rfl, _, _, rfl, _, _, rfl, rfl, rfl⟩ |
        ⟨_, _, rfl, _, _, rfl, _, _, rfl, _, _, rfl, _, _, rfl, _, _, rfl, _, _, rfl, rfl, rfl⟩
      · exact .connection
      · exact .pinConnection
    · intro h
      generalize hus : outDevice.token :: ts = us at h
      cases h with
      | connection =>
          obtain ⟨hd, rfl⟩ := List.cons.inj hus
          obtain rfl := Word.token_inj.mp hd
          exact .inl ⟨_, _, rfl, _, _, rfl, _, _, rfl, _, _, rfl, _, _, rfl, rfl, rfl⟩
      | pinConnection =>
          obtain ⟨hd, rfl⟩ := List.cons.inj hus
          obtain rfl := Word.token_inj.mp hd
          exact .inr ⟨_, _, rfl, _, _, rfl, _, _, rfl, _, _, rfl, _, _, rfl, _, _, rfl, _, _, rfl,
            rfl, rfl⟩

open Reader in
theorem MonitorDecl.reads_reader (device : Word) :
    (MonitorDecl.reader device).Reads fun d ts =>
      Block.monitor.Declares (.monitor d) (device.token :: ts) := by
  have behind (pin : Option Word) :=
    (reads_mark .semicolon (e := .noSemicolon) ⟨rfl, rfl⟩).bind fun _ =>
      reads_pure (⟨device, pin⟩ : MonitorDecl)
  have pin := reads_word (e := .invalidOutputLabel) ⟨rfl, rfl⟩
  refine (Reads.after?_bind (behind none) (pin.bind fun w => behind (some w)) ?_).congr ?_
  · intro d ts h
    obtain ⟨_, _, rfl, -⟩ := then_mark_iff.mp h
    exact ⟨_, _, rfl, by simp⟩
  · intro d ts
    simp only [Reader.Or, then_mark_iff, then_one_iff]
    refine ⟨?_, ?_⟩
    · intro h
      rcases h with ⟨_, _, rfl, rfl, rfl⟩ | ⟨_, _, rfl, _, _, rfl, _, _, rfl, rfl, rfl⟩
      · exact .monitor
      · exact .pinMonitor
    · intro h
      generalize hus : device.token :: ts = us at h
      cases h with
      | monitor =>
          obtain ⟨hd, rfl⟩ := List.cons.inj hus
          obtain rfl := Word.token_inj.mp hd
          exact .inl ⟨_, _, rfl, rfl, rfl⟩
      | pinMonitor =>
          obtain ⟨hd, rfl⟩ := List.cons.inj hus
          obtain rfl := Word.token_inj.mp hd
          exact .inr ⟨_, _, rfl, _, _, rfl, _, _, rfl, rfl, rfl⟩

/-- A reader whose values are wrapped reads a form that has only wrapped values. -/
theorem Reader.Reads.map {α β : Type} {r : Reader α} {f : α → β} {F : Form β}
    (hr : r.Reads fun a ts => F (f a) ts) (hF : ∀ {b ts}, F b ts → ∃ a, b = f a) :
    (f <$> r).Reads F := by
  refine (hr.bind fun a => reads_pure (f a)).congr fun b ts => ⟨?_, ?_⟩
  · intro h
    obtain ⟨a, us, vs, rfl, h, rfl, rfl⟩ := h
    rwa [List.append_nil]
  · intro h
    obtain ⟨a, rfl⟩ := hF h
    exact ⟨a, ts, [], (List.append_nil ts).symm, h, rfl, rfl⟩

/-- **Behind its first name, a declaration is read by the reader of its block.** -/
theorem Block.reads_reader (b : Block) (first : Word) :
    (b.reader first).Reads fun d ts => b.Declares d (first.token :: ts) := by
  cases b with
  | devices => exact (DeviceDecl.reads_reader first).map Declares.eq_device
  | connections => exact (ConnectionDecl.reads_reader first).map Declares.eq_connection
  | monitor => exact (MonitorDecl.reads_reader first).map Declares.eq_monitor

end LogicNet
