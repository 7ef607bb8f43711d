import CollectiveLabeling.Host.Scripted
import CollectiveLabeling.Main
import CollectiveLabeling.Planted.Dice
import CollectiveLabeling.Confusion.Chart
import CollectiveLabeling.Proofs.Hypergraph.Node
import CollectiveLabeling.Proofs.Step
import CollectiveLabeling.Proofs.Neighborhood
import CollectiveLabeling.Proofs.Neighborhood.Restored
import CollectiveLabeling.Proofs.Course.Decision
import CollectiveLabeling.Proofs.Hypergraph.Accepted
import CollectiveLabeling.Proofs.Sweep
import CollectiveLabeling.Proofs.Neighborhood.Tally
import CollectiveLabeling.Proofs.Course.Run
import CollectiveLabeling.Proofs.Scene.Run
import CollectiveLabeling.Proofs.Scene.Setup
import CollectiveLabeling.Proofs.Confusion
import CollectiveLabeling.Proofs.Course.Labels
import CollectiveLabeling.Proofs.Course.Preserved
import CollectiveLabeling.Proofs.Scene.Sound
import CollectiveLabeling.Proofs.Scene.Kept
import CollectiveLabeling.Proofs.Session
import CollectiveLabeling.Proofs.Session.Intact
import CollectiveLabeling.Proofs.Course.Sequential
import CollectiveLabeling.Proofs.Session.Sequential
import CollectiveLabeling.Proofs.Apprentice
import CollectiveLabeling.Proofs.Course.Alike
import CollectiveLabeling.Proofs.Scene.Alike
import CollectiveLabeling.Proofs.Session.Episode
import CollectiveLabeling.Proofs.Session.Impartial
import CollectiveLabeling.Proofs.Session.History
import CollectiveLabeling.Proofs.Course.Memory
import CollectiveLabeling.Proofs.Session.Memory
import CollectiveLabeling.Proofs.Hypergraph.Within
import CollectiveLabeling.Proofs.Neighborhood.Lent
import CollectiveLabeling.Proofs.Course.Part
import CollectiveLabeling.Proofs.Course.Fixed
import CollectiveLabeling.Proofs.Session.Fixed
import CollectiveLabeling.Proofs.Perceptron
import CollectiveLabeling.Proofs.Hypergraph.Join
import CollectiveLabeling.Proofs.Sweep.Join
import CollectiveLabeling.Proofs.Course.Join
import CollectiveLabeling.Proofs.Session.Join
import CollectiveLabeling.Proofs.FeatureSpace
import CollectiveLabeling.Proofs.Neighborhood.Protocol
import CollectiveLabeling.Proofs.Session.Ledger
import CollectiveLabeling.Proofs.LabelLine
import CollectiveLabeling.Proofs.Session.Report
import CollectiveLabeling.Proofs.Files
import CollectiveLabeling.Proofs.Experiment
import CollectiveLabeling.Proofs.Experiment.Report
import CollectiveLabeling.Proofs.Perceptron.Tenure
import CollectiveLabeling.Proofs.Neighborhood.Rule
import CollectiveLabeling.Proofs.Session.Oracle
import CollectiveLabeling.Proofs.Session.Learners
import CollectiveLabeling.Proofs.FeatureSpace.Labels
import CollectiveLabeling.Proofs.Episode.WellFormed
import CollectiveLabeling.Proofs.Episode.Refused
import CollectiveLabeling.Proofs.Sweep.Breadth
import CollectiveLabeling.Proofs.Sweep.Scan
import CollectiveLabeling.Proofs.Confusion.Score
import CollectiveLabeling.Proofs.Episode.Atomic
import CollectiveLabeling.Proofs.Neighborhood.Counter
import CollectiveLabeling.Proofs.Perceptron.Margin
import CollectiveLabeling.Proofs.Apprentice.Refusal
import CollectiveLabeling.Proofs.Cliques
import CollectiveLabeling.Proofs.Episode.Laid
import CollectiveLabeling.Proofs.Planted.Edges
import CollectiveLabeling.Proofs.Planted.Faithful
import CollectiveLabeling.Proofs.Session.Held
import CollectiveLabeling.Proofs.Perceptron.Rows
import CollectiveLabeling.Proofs.Station
