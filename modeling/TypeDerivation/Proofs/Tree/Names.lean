import TypeDerivation.Proofs.Name.Table
import TypeDerivation.Proofs.Tree.Growth

/-!
The names of a tree that was built: each was given to one text, so the text tells the name, and it
keeps that text whatever is built later.
-/

namespace TypeDerivation

namespace SyntaxTree

theorem sound_lasting : Lasting fun t => t.names.Sound where
  empty := NameTable.sound_blank.internAll _
  renamed s h := h.intern s
  added h ha := by rwa [names_addAt ha]
  moved _ _ h := h

theorem Built.sound {t : SyntaxTree} (ht : t.Built) : t.names.Sound := sound_lasting.of_built ht

theorem stable_retains (names : NameTable) : Stable fun t => t.names.Retains names where
  renamed s h := (NameTable.retains_intern _ s).trans h
  added h ha := by rwa [names_addAt ha]
  moved _ _ h := h

theorem Built.text_empty {t : SyntaxTree} (ht : t.Built) : t.names.texts[0]? = some "" := by
  obtain ⟨steps, rfl⟩ := ht
  exact (stable_retains empty.names).afterSteps steps (.refl _) rfl

end SyntaxTree

end TypeDerivation
