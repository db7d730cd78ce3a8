import GridWitness.Server.RetryLaws
import GridWitness.Server.PrivacyLaws
import GridWitness.Survey.WithdrawalLaws
import GridWitness.Acquirer.HorizonLaws
import GridWitness.Acquirer.CoverageLaws
import GridWitness.Client.FlushLaws
import GridWitness.Client.SerialLaws
import GridWitness.Server.LocationLaws
import GridWitness.Server.PublishedLaws
import GridWitness.Server.OwnershipLaws
import GridWitness.Acquirer.IsolationLaws
import GridWitness.Acquirer.RoundTripLaws
import GridWitness.Delivery.OnceLaws
import GridWitness.Delivery.RefusalLaws
import GridWitness.Survey.DrainLaws
import GridWitness.Survey.WholeLaws
import GridWitness.Client.TornLaws
import GridWitness.Client.WedgeLaws
import GridWitness.Acquirer.SkipLaws
import GridWitness.Acquirer.WritersLaws
import GridWitness.Survey.CompletionLaws
import GridWitness.Portal.DashboardLaws
import GridWitness.Client.ConfigFlowLaws
import GridWitness.Survey.ExportRunLaws
import GridWitness.Server.AccountingLaws
import GridWitness.Server.LimiterLaws
import GridWitness.Acquirer.LayoutLaws
import GridWitness.Client.NtpLaws
import GridWitness.Survey.PhaseLaws
import GridWitness.Survey.FrequencyLaws
import GridWitness.Survey.ClockLaws
import GridWitness.Survey.ManifestLaws
import GridWitness.Server.WindowLaws
import GridWitness.Client.DrainLaws
import GridWitness.Client.OffsetLaws
import GridWitness.Survey.CounterLaws
import GridWitness.Survey.NameLaws
import GridWitness.Client.DiscoveryLaws
import GridWitness.Acquirer.TearLaws
import GridWitness.Survey.PqdifLaws
import GridWitness.Acquirer.KilledLaws
import GridWitness.Server.TracelessLaws
import GridWitness.Server.AdmissionLaws
import GridWitness.Server.InterleavingLaws
import GridWitness.Survey.SeparateLaws
import GridWitness.Client.Clock
import GridWitness.Client.ClockLaws
import GridWitness.Portal.PagesLaws
