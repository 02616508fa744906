import Monujo.Proof.AllOrNothing
import Monujo.Proof.Session
import Monujo.Proof.Dispatch
import Monujo.Proof.Recovery
import Monujo.Proof.Reentry
import Monujo.Proof.Stale
import Monujo.Proof.Handles
import Monujo.Proof.HistoryRows
import Monujo.Proof.Send
import Monujo.Proof.Admission
import Monujo.Proof.DetailText
import Monujo.Proof.DaemonHeights
import Monujo.Proof.Simulation
import Monujo.Lib.Relational
import Monujo.Model.LoginScreens
import Monujo.Model.Process
import Monujo.Proof.ConfirmScreens
import Monujo.Proof.Labels
import Monujo.Proof.Provenance
import Monujo.Proof.Reopening
import Monujo.Proof.Secrets
import Monujo.Lib.Spacing
import Monujo.Proof.Rates
import Monujo.Proof.RestoreHeights
import Monujo.Proof.Connections
import Monujo.Proof.Resuming
import Monujo.Proof.Inputs
import Monujo.Proof.Machines
