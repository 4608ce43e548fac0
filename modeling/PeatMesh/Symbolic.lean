/-
Symbolic messages and what an adversary makes of them, with perfect
primitives. That something is not derived comes of `Derivable.safe`: a message
is safe when none of the hidden atoms can be taken from it.
-/
import Mathlib.Data.Sym.Sym2

namespace Symbolic

/-- Messages over atoms `α`, the values somebody drew or wrote, and constants
`κ`, which everybody knows. -/
inductive Term (α κ : Type)
  | atom (a : α)
  | const (c : κ)
  | publicKey (secret : Term α κ)
  /-- What two secrets share. -/
  | shared (secrets : Sym2 α)
  /-- An exchange of anything else. -/
  | exchanged (secret other : Term α κ)
  | kdf (input info : Term α κ)
  | aead (key nonce plaintext : Term α κ)
  deriving DecidableEq

variable {α κ : Type}

def Term.exchange : Term α κ → Term α κ → Term α κ
  | .atom a, .publicKey (.atom b) => .shared s(a, b)
  | secret, other => .exchanged secret other

/-- What an adversary can make of what it knows. -/
inductive Derivable (known : Set (Term α κ)) : Term α κ → Prop
  | known {m} : m ∈ known → Derivable known m
  | const (c) : Derivable known (.const c)
  | publicKey {secret} : Derivable known secret → Derivable known (.publicKey secret)
  | exchange {secret other} : Derivable known secret → Derivable known other →
      Derivable known (secret.exchange other)
  | kdf {input info} : Derivable known input → Derivable known info → Derivable known (.kdf input info)
  | aead {key nonce plaintext} : Derivable known key → Derivable known nonce → Derivable known plaintext →
      Derivable known (.aead key nonce plaintext)
  | opened {key nonce plaintext} : Derivable known (.aead key nonce plaintext) → Derivable known key →
      Derivable known plaintext

def Term.Safe (hidden : α → Prop) : Term α κ → Prop
  | .atom a => ¬hidden a
  | .const _ => True
  | .publicKey _ => True
  | .shared secrets => ∃ a ∈ secrets, ¬hidden a
  | .exchanged secret other => secret.Safe hidden ∧ other.Safe hidden
  | .kdf input info => input.Safe hidden ∧ info.Safe hidden
  | .aead key nonce plaintext => nonce.Safe hidden ∧ (key.Safe hidden → plaintext.Safe hidden)

variable {hidden : α → Prop} {known : Set (Term α κ)}

theorem Term.Safe.exchange {secret other : Term α κ} (hs : secret.Safe hidden) (ho : other.Safe hidden) :
    (secret.exchange other).Safe hidden := by
  rw [Term.exchange.eq_def]
  split
  · exact ⟨_, Sym2.mem_mk_left _ _, hs⟩
  · exact ⟨hs, ho⟩

theorem Derivable.safe (hknown : ∀ m ∈ known, m.Safe hidden) {m} (h : Derivable known m) :
    m.Safe hidden := by
  induction h with
  | known hm => exact hknown _ hm
  | const c => trivial
  | publicKey _ _ => trivial
  | exchange _ _ hs ho => exact hs.exchange ho
  | kdf _ _ hinput hinfo => exact ⟨hinput, hinfo⟩
  | aead _ _ _ _ hnonce hplain => exact ⟨hnonce, fun _ => hplain⟩
  | opened _ _ haead hkey => exact haead.2 hkey

theorem not_derivable_atom {a} (hknown : ∀ m ∈ known, m.Safe hidden) (ha : hidden a) : ¬Derivable known (.atom a) :=
  fun h => h.safe hknown ha

end Symbolic
