import TerminalFeed.Scenario.SourceTree
import TerminalFeed.SourceRules.Basic

/-!
Rules on Rust sources, and the trees to try them on.
-/
